import FeatureGates.Proofs.Flights
import Mathlib.Data.Prod.Lex
import Mathlib.Order.Bounds.Basic

/-!
Waiting for flights.

Three parties can end the wait for flights: the cancellation, the service and the deadline.  What
waits does not look at the clock all the time.  It is polled at the start and then whenever a timer
goes off, and a poll asks the parties in a fixed order.  The wait ends as the party wants that comes
first, and of parties that come at one time the one that is asked first counts.
-/

namespace FeatureGates

/-- Something to wait for.  Between its timers it does not become ready. -/
@[ext]
structure Future (α : Type) where
  poll : Nat → Option α
  timers : List Nat
  poll_between : ∀ {now later : Nat}, now ≤ later → poll now = none →
    (∀ timer ∈ timers, now < timer → later < timer) → poll later = none

namespace Future

variable {α β : Type}

/-- Ready from a time on, if that time ever comes. -/
def after (time : Option Nat) (value : α) : Future α where
  poll now := if time.any (· ≤ now) then some value else none
  timers := time.toList
  poll_between := by
    intro now later hle hnone htimers
    cases time with
    | none => rfl
    | some t =>
      have hpending : now < t := by simpa using hnone
      have hlater : later < t := htimers t (by simp) hpending
      simpa using hlater

def map (f : α → β) (a : Future α) : Future β where
  poll now := (a.poll now).map f
  timers := a.timers
  poll_between := by
    intro now later hle hnone htimers
    rw [Option.map_eq_none_iff] at hnone ⊢
    exact a.poll_between hle hnone htimers

/-- Two at once.  The left one is asked first. -/
def first (a b : Future α) : Future α where
  poll now := (a.poll now).or (b.poll now)
  timers := a.timers ++ b.timers
  poll_between := by
    intro now later hle hnone htimers
    rw [Option.or_eq_none_iff] at hnone ⊢
    exact ⟨a.poll_between hle hnone.1 fun t ht => htimers t (List.mem_append_left _ ht),
      b.poll_between hle hnone.2 fun t ht => htimers t (List.mem_append_right _ ht)⟩

theorem poll_first (a b : Future α) (now : Nat) :
    (a.first b).poll now = (a.poll now).or (b.poll now) := rfl

/-- Given up at a deadline, if it is not ready by then. -/
def within (deadline : Nat) (a : Future α) : Future (Option α) :=
  (a.map some).first (after (some deadline) none)

/-- Polls at one time and then at others, until something is ready. -/
def pollAt (a : Future α) (now : Nat) : List Nat → Option (Nat × α)
  | [] => (a.poll now).map (now, ·)
  | timer :: rest =>
    match a.poll now with
    | some value => some (now, value)
    | none => a.pollAt timer rest

/-- When the wait that starts at zero ends, and with what. -/
def finish (a : Future α) : Option (Nat × α) := a.pollAt 0 (a.timers.mergeSort)

/-- Ready at a time, and at no time before. -/
def ReadyAt (a : Future α) (time : Nat) (value : α) : Prop :=
  a.poll time = some value ∧ ∀ before < time, a.poll before = none

theorem ReadyAt.time_unique {a : Future α} {t u : Nat} {x y : α} (hx : a.ReadyAt t x)
    (hy : a.ReadyAt u y) : t = u := by
  rcases Nat.lt_trichotomy t u with hlt | heq | hgt
  · exact absurd (hy.2 t hlt) (by simp [hx.1])
  · exact heq
  · exact absurd (hx.2 u hgt) (by simp [hy.1])

theorem ReadyAt.of_poll {a : Future α} {now t : Nat} {x y : α}
    (hbefore : ∀ before < now, a.poll before = none) (hnow : a.poll now = some x) :
    some (now, x) = some (t, y) ↔ a.ReadyAt t y := by
  constructor
  · intro h
    obtain ⟨rfl, rfl⟩ := Prod.mk.inj (Option.some.inj h)
    exact ⟨hnow, hbefore⟩
  · intro h
    have hready : a.ReadyAt now x := ⟨hnow, hbefore⟩
    obtain rfl := hready.time_unique h
    rw [← Option.some.inj (hnow.symm.trans h.1)]

/-- Nothing is ready before the next timer goes off. -/
theorem poll_before {a : Future α} {now bound : Nat}
    (hbefore : ∀ before < now, a.poll before = none) (hnow : a.poll now = none)
    (hbound : ∀ timer ∈ a.timers, now < timer → bound ≤ timer) :
    ∀ before < bound, a.poll before = none := by
  intro before hlt
  rcases Nat.lt_or_ge before now with h | h
  · exact hbefore before h
  · exact a.poll_between h hnow fun t ht hlater => Nat.lt_of_lt_of_le hlt (hbound t ht hlater)

/-- Polling at the timers that are left misses nothing, if nothing was ready before. -/
theorem pollAt_eq_some_iff (a : Future α) {now : Nat} {rest : List Nat} {t : Nat} {x : α}
    (hsorted : (now :: rest).Pairwise (· ≤ ·))
    (hrest : ∀ timer ∈ a.timers, now < timer → timer ∈ rest)
    (hbefore : ∀ before < now, a.poll before = none) :
    a.pollAt now rest = some (t, x) ↔ a.ReadyAt t x := by
  induction rest generalizing now with
  | nil =>
    rw [pollAt]
    cases hnow : a.poll now with
    | some y => exact ReadyAt.of_poll hbefore hnow
    | none =>
      have hnever : a.poll t = none :=
        poll_before hbefore hnow (fun u hu hlater => absurd (hrest u hu hlater) List.not_mem_nil) t
          (Nat.lt_succ_self t)
      simp [ReadyAt, hnever]
  | cons timer rest ih =>
    obtain ⟨hnext, hsorted'⟩ := List.pairwise_cons.mp hsorted
    obtain ⟨hfirst, -⟩ := List.pairwise_cons.mp hsorted'
    rw [pollAt]
    cases hnow : a.poll now with
    | some y => exact ReadyAt.of_poll hbefore hnow
    | none =>
      refine ih hsorted' (fun u hu hlater => ?_) (poll_before hbefore hnow fun u hu hlater => ?_)
      · have hmem := hrest u hu (Nat.lt_of_le_of_lt (hnext timer List.mem_cons_self) hlater)
        exact (List.mem_cons.mp hmem).resolve_left (Nat.ne_of_gt hlater)
      · rcases List.mem_cons.mp (hrest u hu hlater) with rfl | hmem
        · exact Nat.le_refl u
        · exact hfirst u hmem

theorem finish_eq_some_iff {a : Future α} {t : Nat} {x : α} :
    a.finish = some (t, x) ↔ a.ReadyAt t x := by
  have hsorted : (0 :: a.timers.mergeSort).Pairwise (· ≤ ·) :=
    List.pairwise_cons.mpr ⟨fun _ _ => Nat.zero_le _, by
      simpa using List.pairwise_mergeSort' (· ≤ ·) a.timers⟩
  exact a.pollAt_eq_some_iff hsorted (fun u hu _ => List.mem_mergeSort.mpr hu)
    fun before h => absurd h (Nat.not_lt_zero before)

/-! ## What is awaited in two ways -/

theorem map_after (f : α → β) (time : Option Nat) (value : α) :
    (after time value).map f = after time (f value) :=
  Future.ext (funext fun _ => apply_ite (Option.map f) _ _ _) rfl

theorem map_first (f : α → β) (a b : Future α) :
    (a.first b).map f = (a.map f).first (b.map f) :=
  Future.ext (funext fun _ => Option.map_or) rfl

theorem map_map {γ : Type} (f : α → β) (g : β → γ) (a : Future α) :
    (a.map f).map g = a.map (g ∘ f) :=
  Future.ext (funext fun _ => Option.map_map g f _) rfl

theorem readyAt_after (time : Nat) (value : α) : (after (some time) value).ReadyAt time value := by
  refine ⟨by simp [after], fun before h => ?_⟩
  simpa [after] using h

end Future

namespace FlightService

open Future

/-- Of two that are awaited the one that comes first ends the wait, and at one time the left one. -/
theorem readyAt_sooner {α : Type} {u : Nat} {x : α} {b : Future α} (hb : b.ReadyAt u x)
    (time : Option Nat) (outcome : α) :
    ((after time outcome).first b).ReadyAt (sooner time outcome (u, x)).1
      (sooner time outcome (u, x)).2 := by
  cases time with
  | none => exact hb
  | some t =>
    obtain ⟨hready, hbefore⟩ := readyAt_after t outcome
    rw [sooner]
    split
    · rename_i hle
      refine ⟨?_, fun before h => ?_⟩
      · rw [poll_first, hready, Option.some_or]
      · rw [poll_first, hbefore before h, hb.2 before (Nat.lt_of_lt_of_le h hle), Option.none_or]
    · rename_i hgt
      have hlater : u < t := Nat.lt_of_not_le hgt
      refine ⟨?_, fun before h => ?_⟩
      · rw [poll_first, hbefore u hlater, hb.1, Option.none_or]
      · rw [poll_first, hbefore before (Nat.lt_trans h hlater), hb.2 before h, Option.none_or]

/-! ## The parties -/

/-- Who can end the wait for flights. -/
inductive Party where
  | cancellation
  | service
  | deadline
  deriving DecidableEq

/-- The order in which a poll asks the parties. -/
def Party.rank : Party → Nat
  | cancellation => 0
  | service => 1
  | deadline => 2

instance : Preorder Party := Preorder.lift Party.rank

section

variable (s : FlightService) (profile : FlightProfile) (timeout : Nat) (cancelled : Option Nat)

/-- When a party comes, if ever. -/
def comes : Party → Option Nat
  | .cancellation => cancelled
  | .service => s.ready
  | .deadline => some timeout

/-- How a party ends the wait. -/
def brings : Party → Except FlightFault Flights
  | .cancellation => .error .cancelled
  | .service => s.answer profile
  | .deadline => .error .timeout

/-- The times at which parties come, each with the party; earlier times are less, and at one time
the party that is asked first. -/
def arrivals : Set (Nat ×ₗ Party) := {e | s.comes timeout cancelled (ofLex e).2 = some (ofLex e).1}

/-- The wait itself: for the service up to the deadline, unless it is cancelled. -/
def awaited : Future (Except FlightFault Flights) :=
  (after cancelled (.error .cancelled)).first <|
    ((after s.ready (s.answer profile)).within timeout).map fun
      | some answer => answer
      | none => .error .timeout

theorem finish_awaited :
    (s.awaited profile timeout cancelled).finish = some (s.race profile timeout cancelled) := by
  have hbounded : ((after s.ready (s.answer profile)).within timeout).map (fun
      | some answer => answer
      | none => .error .timeout) =
      (after s.ready (s.answer profile)).first (after (some timeout) (.error .timeout)) := by
    rw [within, map_first, map_map, map_after, map_after]
    rfl
  rw [awaited, hbounded]
  have hdeadline := readyAt_after timeout (Except.error FlightFault.timeout : Except _ Flights)
  have hservice := readyAt_sooner hdeadline s.ready (s.answer profile)
  exact finish_eq_some_iff.mpr (readyAt_sooner hservice cancelled (.error .cancelled))

theorem sooner_map {α β : Type} (f : α → β) (time : Option Nat) (x : α) (other : Nat × α) :
    sooner time (f x) (Prod.map id f other) = Prod.map id f (sooner time x other) := by
  cases time with
  | none => rfl
  | some t => exact (apply_ite (Prod.map id f) (t ≤ other.1) (t, x) other).symm

/-- The time at which the wait ends, and the party that ends it. -/
def winner : Nat × Party :=
  sooner cancelled .cancellation (sooner s.ready .service (timeout, .deadline))

theorem race_eq_winner : s.race profile timeout cancelled =
    Prod.map id (s.brings profile) (s.winner timeout cancelled) := by
  rw [winner, ← sooner_map, ← sooner_map]
  rfl

/-- The sooner of two is the least arrival, if one of them was the least of those that are asked
later. -/
theorem isLeast_sooner {later : Set (Nat ×ₗ Party)} {other : Nat × Party} {p : Party}
    (hleast : IsLeast later (toLex other)) (hp : p ≤ other.2) (time : Option Nat) :
    IsLeast ({e | (ofLex e).2 = p ∧ time = some (ofLex e).1} ∪ later)
      (toLex (sooner time p other)) := by
  cases time with
  | none => exact ⟨Or.inr hleast.1, fun e he => hleast.2 (he.resolve_left (by simp))⟩
  | some t =>
    rw [sooner]
    split
    · rename_i hle
      have hother : toLex (t, p) ≤ toLex other :=
        Prod.Lex.toLex_le_toLex.mpr (hle.lt_or_eq.imp_right fun heq => ⟨heq, hp⟩)
      refine ⟨Or.inl ⟨rfl, rfl⟩, fun e he => ?_⟩
      rcases he with ⟨rfl, ht⟩ | he
      · rw [Option.some.inj ht]
        exact le_rfl
      · exact hother.trans (hleast.2 he)
    · rename_i hgt
      refine ⟨Or.inr hleast.1, fun e he => ?_⟩
      rcases he with ⟨rfl, ht⟩ | he
      · rw [Option.some.inj ht] at hgt
        exact Prod.Lex.le_iff.mpr (Or.inl (Nat.lt_of_not_le hgt))
      · exact hleast.2 he

theorem arrivals_eq : s.arrivals timeout cancelled =
    {e | (ofLex e).2 = .cancellation ∧ cancelled = some (ofLex e).1} ∪
      ({e | (ofLex e).2 = .service ∧ s.ready = some (ofLex e).1} ∪
        {toLex (timeout, .deadline)}) := by
  ext e
  have hdeadline : e = toLex (timeout, .deadline) ↔ ofLex e = (timeout, .deadline) := Iff.rfl
  simp only [arrivals, Set.mem_union, Set.mem_ofPred_eq, Set.mem_singleton_iff, hdeadline]
  obtain ⟨t, p⟩ := ofLex e
  cases p <;> simp [comes, eq_comm]

theorem isLeast_winner :
    IsLeast (s.arrivals timeout cancelled) (toLex (s.winner timeout cancelled)) := by
  have hdeadline : IsLeast {toLex (timeout, Party.deadline)} (toLex (timeout, Party.deadline)) :=
    isLeast_singleton
  have hservice := isLeast_sooner hdeadline (p := .service) (Nat.le_succ 1) s.ready
  rw [arrivals_eq]
  exact isLeast_sooner hservice (Nat.zero_le _) cancelled

theorem eq_service_of_brings {p : Party} {flights : Flights}
    (hp : s.brings profile p = .ok flights) : p = .service := by
  cases p with
  | cancellation => cases hp
  | service => rfl
  | deadline => cases hp

/-- The wait for flights, polled on a clock that starts at zero, ends with the least arrival: by
time first, and at one time by the order cancellation, service, deadline.  If the service comes
first and has an answer, its flights are taken and nothing is told.  In every other case there are
no flights, one warning, and one event for a recorder, which says whether it was the cancellation,
the deadline, or a fault that the service had itself. -/
theorem fetch_by_least_arrival :
    ∃ time party, IsLeast (s.arrivals timeout cancelled) (toLex (time, party)) ∧
      (s.awaited profile timeout cancelled).finish = some (time, s.brings profile party) ∧
      s.race profile timeout cancelled = (time, s.brings profile party) ∧
      let fetched := s.fetch profile timeout cancelled
      match s.brings profile party with
      | .ok flights => party = .service ∧ fetched.answer = flights ∧ fetched.notices = []
      | .error fault => fetched.answer = .empty ∧
          (∀ recorder, Notice.events recorder fetched.notices =
            if recorder then [.flightsUnavailable fault] else []) ∧
          Notice.log fetched.notices =
            [⟨.warn, "continuing without flights: " ++ fault.message⟩] := by
  obtain ⟨time, party, hwinner⟩ : ∃ time party, s.winner timeout cancelled = (time, party) :=
    ⟨_, _, rfl⟩
  have hleast := s.isLeast_winner timeout cancelled
  have hrace := s.race_eq_winner profile timeout cancelled
  rw [hwinner] at hleast hrace
  refine ⟨time, party, hleast, (s.finish_awaited profile timeout cancelled).trans
    (congrArg some hrace), hrace, ?_⟩
  intro fetched
  have hfetched : fetched = match s.brings profile party with
      | .ok flights => pure flights
      | .error fault => do
        note (.flightsUnavailable fault)
        return .empty := by
    show s.fetch profile timeout cancelled = _
    rw [fetch, hrace]
    rfl
  rw [hfetched]
  cases hbrings : s.brings profile party with
  | ok flights => exact ⟨s.eq_service_of_brings profile hbrings, rfl, rfl⟩
  | error fault => exact ⟨rfl, fun recorder => rfl, rfl⟩

end

example (answer : FlightProfile → Except FlightFault Flights) :
    winner ⟨some 0, answer⟩ 0 (some 0) = (0, .cancellation) ∧
      winner ⟨some 0, answer⟩ 0 none = (0, .service) ∧
      winner ⟨some 5, answer⟩ 5 (some 6) = (5, .service) ∧
      winner ⟨none, answer⟩ 5 (some 6) = (5, .deadline) :=
  ⟨rfl, rfl, rfl, rfl⟩

end FlightService
end FeatureGates
