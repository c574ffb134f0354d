import FeatureGates.Proofs.Cycles
import FeatureGates.Proofs.Resolution

/-!
What a visit walks through.

A visit to a gate visits the gates it demands, one after another; nothing else changes the marks,
and nothing else is told to a recorder.  Only the last of these gates can be off, so a visit that
comes back to a gate in progress comes back to it once, and nothing is visited after that but the
way out.
-/

namespace FeatureGates

/-- What an attached recorder is told. -/
def Noted.events {α : Type} (n : Noted α) : List Event := Notice.events true n.notices

namespace Noted

variable {α β : Type}

@[simp] theorem events_pure (a : α) : (pure a : Noted α).events = [] := rfl

@[simp] theorem events_bind (n : Noted α) (f : α → Noted β) :
    (n >>= f).events = n.events ++ (f n.answer).events :=
  List.filterMap_append

@[simp] theorem events_map (f : α → β) (n : Noted α) : (n.map f).events = n.events := rfl

end Noted

namespace Marks

def Decided (m : Marks) (id : Nat) : Prop := ∃ d, m.find? id = some (.decided d)

theorem Extends.of_decided {m m' : Marks} (h : m.Extends m') {id : Nat} (hid : m.Decided id) :
    m'.Decided id := by
  obtain ⟨d, hd⟩ := hid
  exact ⟨d, h.decided id d hd⟩

theorem not_decided_nil (id : Nat) : ¬Decided [] id := by
  intro hid
  obtain ⟨d, hd⟩ := hid
  cases hd

theorem decided_of_reached {m : Marks} {id : Nat} (hid : m.find? id ≠ none)
    (hidle : m.find? id ≠ some .inProgress) : m.Decided id := by
  cases hm : m.find? id with
  | none => exact absurd hm hid
  | some p =>
    cases p with
    | inProgress => exact absurd hm hidle
    | decided d => exact ⟨d, hm⟩

theorem decided_set_inProgress {m : Marks} {id other : Nat} (hid : m.find? id = none) :
    (m.set id .inProgress).Decided other ↔ m.Decided other := by
  rw [Decided, Decided, find?_set]
  split
  · rename_i he
    rw [he, hid]
    simp
  · rfl

theorem decided_set_decided {m : Marks} {id other : Nat} {d : Decision} :
    (m.set id (.decided d)).Decided other ↔ other = id ∨ m.Decided other := by
  rw [Decided, Decided, find?_set]
  split
  · rename_i he
    simp [he]
  · rename_i he
    simp [he]

end Marks

namespace Resolver

open Relation (TransGen ReflTransGen)

variable {s : Scope} {h : Hierarchy} {g : Gate} {v : Visit}

/-! ## Visits one after another -/

def visitAll (v : Visit) : List Gate → Marks → Noted Marks
  | [], m => pure m
  | g :: rest, m => do
    let (_, m) ← v g m
    visitAll v rest m

theorem answer_visitAll_cons (g : Gate) (rest : List Gate) (m : Marks) :
    (visitAll v (g :: rest) m).answer = (visitAll v rest (v g m).answer.2).answer := rfl

theorem events_visitAll_cons (g : Gate) (rest : List Gate) (m : Marks) :
    (visitAll v (g :: rest) m).events =
      (v g m).events ++ (visitAll v rest (v g m).answer.2).events :=
  Noted.events_bind _ _

theorem events_visitAll_singleton (g : Gate) (m : Marks) :
    (visitAll v [g] m).events = (v g m).events := by
  rw [events_visitAll_cons, visitAll, Noted.events_pure, List.append_nil]

/-- The marks and the events of `n` are those of visiting `gs`. -/
def Runs (v : Visit) (gs : List Gate) (m : Marks) (n : Noted (Decision × Marks)) : Prop :=
  n.answer.2 = (visitAll v gs m).answer ∧ n.events = (visitAll v gs m).events

theorem filterPasses_runs (f : Filter) (m : Marks) :
    (filterPasses s v g m f).answer.2 = (visitAll v (s.asked f).toList m).answer ∧
      (filterPasses s v g m f).events = (visitAll v (s.asked f).toList m).events := by
  cases f with
  | condition c => exact ⟨rfl, rfl⟩
  | parent name =>
    rw [filterPasses, Scope.asked]
    cases s.view.named? name with
    | none => exact ⟨rfl, rfl⟩
    | some p =>
      refine ⟨rfl, ?_⟩
      rw [Option.toList_some, events_visitAll_singleton, Noted.events_bind, Noted.events_pure,
        List.append_nil]

theorem visitAll_append (gs gs' : List Gate) (m : Marks) :
    (visitAll v (gs ++ gs') m).answer = (visitAll v gs' (visitAll v gs m).answer).answer ∧
      (visitAll v (gs ++ gs') m).events =
        (visitAll v gs m).events ++ (visitAll v gs' (visitAll v gs m).answer).events := by
  induction gs generalizing m with
  | nil => exact ⟨rfl, rfl⟩
  | cons g rest ih =>
    obtain ⟨hanswer, hevents⟩ := ih (v g m).answer.2
    refine ⟨hanswer, ?_⟩
    rw [List.cons_append, events_visitAll_cons, events_visitAll_cons, hevents, List.append_assoc,
      answer_visitAll_cons]

section

/- As for `resolve_spec`: `m₀` are the marks with which `g` was entered, and visits to what `g`
demands are right. -/
variable {m₀ : Marks} (hext : Keeps v)
  (hv : ∀ p m, s.Demands g p → Agrees s h m → m₀.Extends m → Answers s h p (v p m).answer)
include hext hv

open Classical in
theorem resolveFilters_runs (hc : s.ContainerOn s.Active g) {before rest : List Filter}
    {index : Nat} {m : Marks} (hfilters : g.filters = before ++ rest)
    (hbefore : ∀ f ∈ before, s.Passes s.Active g f) (hm : Agrees s h m) (hm₀ : m₀.Extends m) :
    Runs v (s.askedInTurn g rest) m (resolveFilters s v g index rest m) := by
  induction rest generalizing before index m with
  | nil => exact ⟨rfl, rfl⟩
  | cons f rest ih =>
    obtain ⟨hpass, hagrees⟩ := filterPasses_spec (g := g) (v := v) (f := f) hm
      fun name p hf hp => hv p m (.parent hc (hf ▸ hfilters) hbefore hp) hm hm₀
    have hmore := filterPasses_ext (s := s) (g := g) hext m f
    obtain ⟨hmarks, hevents⟩ := filterPasses_runs (s := s) (v := v) (g := g) f m
    obtain ⟨hanswer', hevents'⟩ := visitAll_append (v := v) (s.asked f).toList
      (if s.Passes s.Active g f then s.askedInTurn g rest else []) m
    rw [Runs, Scope.askedInTurn, hanswer', hevents', ← hmarks, ← hevents, resolveFilters,
      Noted.answer_bind, Noted.events_bind]
    by_cases hf : s.Passes s.Active g f
    · have hbefore' : ∀ f' ∈ before ++ [f], s.Passes s.Active g f' := by
        intro f' hf'
        rcases List.mem_append.mp hf' with hf' | hf'
        · exact hbefore f' hf'
        · rw [List.mem_singleton.mp hf']
          exact hf
      have hfilters' : g.filters = (before ++ [f]) ++ rest := by
        rw [hfilters, List.append_assoc, List.singleton_append]
      have hruns : Runs v (s.askedInTurn g rest) (filterPasses s v g m f).answer.2
          (resolveFilters s v g (index + 1) rest (filterPasses s v g m f).answer.2) :=
        ih hfilters' hbefore' hagrees (hm₀.trans hmore)
      obtain ⟨hanswer, hrest⟩ := hruns
      simp only [if_pos hf, if_pos (hpass.mpr hf)]
      exact ⟨hanswer, by rw [hrest]⟩
    · simp only [if_neg hf, if_neg fun htrue => hf (hpass.mp htrue)]
      exact ⟨rfl, rfl⟩

open Classical in
/-- Resolving a gate is visiting what it demands. -/
theorem resolve_runs (hm : Agrees s h m₀) : Runs v (s.demanded g) m₀ (resolve s v g m₀) := by
  have hfilters : g.filters = [] ++ g.filters := rfl
  cases hid : g.container with
  | none =>
    have hc : s.ContainerOn s.Active g := fun id' hid' => by rw [hid] at hid'; cases hid'
    rw [Scope.demanded, hid, if_pos hc, resolve, hid]
    exact resolveFilters_runs hext hv hc hfilters (by simp) hm (Marks.Extends.refl m₀)
  | some id =>
    cases hfound : s.view.gate? id with
    | none =>
      have hc : ¬s.ContainerOn s.Active g := by
        intro hc
        obtain ⟨c, hc, -⟩ := hc id hid
        rw [hfound] at hc
        cases hc
      simp only [Scope.demanded, resolve, hid, hfound, Option.bind_some, if_neg hc]
      exact ⟨rfl, rfl⟩
    | some c =>
      obtain ⟨hactive, hagrees⟩ := hv c m₀ (.container hid hfound) hm (Marks.Extends.refl m₀)
      have hc : s.ContainerOn s.Active g ↔ s.Active c := by
        simp [Scope.ContainerOn, hid, hfound]
      simp only [Scope.demanded, resolve, hid, hfound, Option.bind_some, Option.toList_some, Runs,
        List.singleton_append, answer_visitAll_cons, events_visitAll_cons, Noted.answer_bind,
        Noted.events_bind]
      by_cases hon : s.Active c
      · have hruns : Runs v (s.askedInTurn g g.filters) (v c m₀).answer.2
            (resolveFilters s v g 0 g.filters (v c m₀).answer.2) :=
          resolveFilters_runs hext hv (hc.mpr hon) hfilters (by simp) hagrees (hext c m₀)
        obtain ⟨hanswer, hevents⟩ := hruns
        simp only [if_pos (hc.mpr hon), if_pos (hactive.mpr hon)]
        exact ⟨hanswer, by rw [hevents]⟩
      · simp only [if_neg fun hon' => hon (hc.mp hon'), if_neg fun htrue => hon (hactive.mp htrue)]
        exact ⟨rfl, rfl⟩

end

theorem visit_runs (hn : h.Numbered) (hp : s.view.PartOf h) {depth : Nat} {m : Marks}
    (hr : Ready s h (depth + 1) g m) (hmark : m.find? g.id = none) :
    Runs (visit s depth) (s.demanded g) (m.set g.id .inProgress)
      (resolve s (visit s depth) g (m.set g.id .inProgress)) :=
  resolve_runs (visit_ext s depth)
    (fun _ _ hgp hm' hext => (visit_spec hn hp (hr.of_demands hn hp hmark hgp hm' hext)).1)
    (hr.agrees.set_inProgress g.id)

theorem events_visit_of_unreached {m : Marks} (hm : m.find? g.id = none) (depth : Nat) :
    (visit s (depth + 1) g m).events =
      (resolve s (visit s depth) g (m.set g.id .inProgress)).events := by
  rw [visit, hm]
  exact (Noted.events_bind _ _).trans (List.append_nil _)

theorem events_visit_of_decided {m : Marks} {d : Decision} (hm : m.find? g.id = some (.decided d))
    (depth : Nat) : (visit s depth g m).events = [] := by
  rw [visit.eq_def, hm]
  rfl

theorem events_visit_of_inProgress {m : Marks} (hm : m.find? g.id = some .inProgress)
    (depth : Nat) : (visit s depth g m).events = [.cycle g.name] := by
  rw [visit.eq_def, hm]
  rfl

/-! ## Which gates are decided -/

/-- Whatever a decided gate demands was reached. -/
def Looked (s : Scope) (h : Hierarchy) (m : Marks) : Prop :=
  ∀ q ∈ h.gates, m.Decided q.id → ∀ p, s.Demands q p → m.find? p.id ≠ none

/-- Whatever a decided gate demands is decided. -/
def Closed (s : Scope) (h : Hierarchy) (m : Marks) : Prop :=
  ∀ q ∈ h.gates, m.Decided q.id → ∀ p, s.Demands q p → m.Decided p.id

/-- From `m` to `m'` the gates `gs` were visited. -/
structure Explores (s : Scope) (h : Hierarchy) (gs : List Gate) (m m' : Marks) : Prop where
  keeps : m.Extends m'
  agrees : Agrees s h m'
  reached : ∀ g ∈ gs, m'.find? g.id ≠ none
  fresh : ∀ x ∈ h.gates, m'.Decided x.id → m.Decided x.id ∨
    ∃ g ∈ gs, ReflTransGen s.Demands g x
  looked : Looked s h m → Looked s h m'

theorem Explores.nil {m : Marks} (hm : Agrees s h m) : Explores s h [] m m :=
  ⟨Marks.Extends.refl m, hm, fun _ hg => absurd hg List.not_mem_nil, fun _ _ hx => Or.inl hx, id⟩

theorem Explores.of_reached {m : Marks} (hm : Agrees s h m) (hmark : m.find? g.id ≠ none) :
    Explores s h [g] m m where
  keeps := Marks.Extends.refl m
  agrees := hm
  reached q hq := by
    rw [List.mem_singleton.mp hq]
    exact hmark
  fresh _ _ hx := Or.inl hx
  looked := id

theorem Explores.cons {rest : List Gate} {m m₁ m₂ : Marks} (hg : Explores s h [g] m m₁)
    (hrest : Explores s h rest m₁ m₂) : Explores s h (g :: rest) m m₂ where
  keeps := hg.keeps.trans hrest.keeps
  agrees := hrest.agrees
  reached q hq := by
    rcases List.mem_cons.mp hq with rfl | hq
    · exact hrest.keeps.find?_ne_none (hg.reached q (List.mem_singleton_self q))
    · exact hrest.reached q hq
  fresh x hx hdecided := by
    rcases hrest.fresh x hx hdecided with hdecided | ⟨q, hq, hqx⟩
    · rcases hg.fresh x hx hdecided with hdecided | ⟨q, hq, hqx⟩
      · exact Or.inl hdecided
      · rw [List.mem_singleton.mp hq] at hqx
        exact Or.inr ⟨g, List.mem_cons_self, hqx⟩
    · exact Or.inr ⟨q, List.mem_cons_of_mem g hq, hqx⟩
  looked hm := hrest.looked (hg.looked hm)

theorem visitAll_explores {gs : List Gate} {m : Marks} (hm : Agrees s h m)
    (hv : ∀ g ∈ gs, ∀ m', m.Extends m' → Agrees s h m' →
      Explores s h [g] m' (v g m').answer.2) :
    Explores s h gs m (visitAll v gs m).answer := by
  induction gs generalizing m with
  | nil => exact Explores.nil hm
  | cons g rest ih =>
    have hg := hv g List.mem_cons_self m (Marks.Extends.refl m) hm
    refine hg.cons (ih hg.agrees fun q hq m' hext hm' => ?_)
    exact hv q (List.mem_cons_of_mem g hq) m' (hg.keeps.trans hext) hm'

/-- Coming back from what `g` demands, `g` is decided. -/
theorem Explores.visit {m m' : Marks} {d : Decision} (hn : h.Numbered) (hg : g ∈ h.gates)
    (hmark : m.find? g.id = none) (hd : d = s.verdict g)
    (hm' : Explores s h (s.demanded g) (m.set g.id .inProgress) m') :
    Explores s h [g] m (m'.set g.id (.decided d)) where
  keeps := Marks.Extends.of_set hmark hm'.keeps
  agrees := by
    rw [hd]
    exact hm'.agrees.set_verdict hn hg
  reached q hq := by
    rw [List.mem_singleton.mp hq, Marks.find?_set, if_pos rfl]
    simp
  fresh x hx hdecided := by
    rcases Marks.decided_set_decided.mp hdecided with hid | hdecided
    · rw [hn.eq_of_id_eq hx hg hid]
      exact Or.inr ⟨g, List.mem_singleton_self g, ReflTransGen.refl⟩
    · rcases hm'.fresh x hx hdecided with hdecided | ⟨p, hp, hpx⟩
      · exact Or.inl ((Marks.decided_set_inProgress hmark).mp hdecided)
      · exact Or.inr ⟨g, List.mem_singleton_self g, hpx.head (Scope.mem_demanded_iff.mp hp)⟩
  looked hm q hq hdecided p hp := by
    have hreached : m'.find? p.id ≠ none := by
      rcases Marks.decided_set_decided.mp hdecided with hid | hdecided
      · rw [hn.eq_of_id_eq hq hg hid] at hp
        exact hm'.reached p (Scope.mem_demanded_iff.mpr hp)
      · refine hm'.looked (fun q' hq' hdecided' p' hp' => ?_) q hq hdecided p hp
        have hp'' := hm q' hq' ((Marks.decided_set_inProgress hmark).mp hdecided') p' hp'
        rw [Marks.find?_set]
        split
        · simp
        · exact hp''
    rw [Marks.find?_set]
    split
    · simp
    · exact hreached

theorem visit_explores_of_reached {depth : Nat} {m : Marks} {progress : Progress}
    (hm : Agrees s h m) (hmark : m.find? g.id = some progress) :
    Explores s h [g] m (visit s depth g m).answer.2 := by
  have hreached : m.find? g.id ≠ none := by simp [hmark]
  cases progress with
  | inProgress =>
    rw [visit_of_inProgress hmark]
    exact Explores.of_reached hm hreached
  | decided d =>
    rw [visit_of_decided hmark]
    exact Explores.of_reached hm hreached

theorem visit_explores (hn : h.Numbered) (hp : s.view.PartOf h) {depth : Nat} {m : Marks}
    (hr : Ready s h depth g m) : Explores s h [g] m (visit s depth g m).answer.2 := by
  induction depth generalizing g m with
  | zero =>
    cases hmark : m.find? g.id with
    | none => exact absurd (hr.depth_pos hmark) (Nat.lt_irrefl 0)
    | some progress => exact visit_explores_of_reached hr.agrees hmark
  | succ depth ih =>
    cases hmark : m.find? g.id with
    | some progress => exact visit_explores_of_reached hr.agrees hmark
    | none =>
      have hverdict := (visit_spec hn hp hr).2 (by simp [hmark])
      have hall : Explores s h (s.demanded g) (m.set g.id .inProgress)
          (visitAll (visit s depth) (s.demanded g) (m.set g.id .inProgress)).answer :=
        visitAll_explores (hr.agrees.set_inProgress g.id) fun p hgp m' hext hm' =>
          ih (hr.of_demands hn hp hmark (Scope.mem_demanded_iff.mp hgp) hm' hext)
      rw [visit_of_unreached hmark] at hverdict ⊢
      rw [← (visit_runs hn hp hr hmark).1] at hall
      exact hall.visit hn hr.mem hmark hverdict

/-! ## What is told -/

theorem mem_of_demands (hp : s.view.PartOf h) {p q : Gate} (hqp : s.Demands q p) :
    p ∈ h.gates := by
  cases hqp with
  | container _ hfound => exact hp.mem_of_gate? hfound
  | parent _ _ _ hfound => exact hp.mem_of_named? hfound

theorem mem_of_cycle (hp : s.view.PartOf h) {x : Gate} (hx : TransGen s.Demands x x) :
    x ∈ h.gates := by
  obtain ⟨q, -, hqx⟩ := TransGen.tail'_iff.mp hx
  exact mem_of_demands hp hqx

theorem Closed.looked {m : Marks} (hm : Closed s h m) : Looked s h m := by
  intro q hq hdecided p hp hnone
  obtain ⟨d, hd⟩ := hm q hq hdecided p hp
  rw [hnone] at hd
  cases hd

theorem Closed.of_reach (hp : s.view.PartOf h) {m : Marks} (hm : Closed s h m) (hg : g ∈ h.gates)
    (hdecided : m.Decided g.id) {x : Gate} (hx : ReflTransGen s.Demands g x) : m.Decided x.id := by
  induction hx using ReflTransGen.head_induction_on with
  | refl => exact hdecided
  | @head a b hab _ ih => exact ih (mem_of_demands hp hab) (hm a hg hdecided b hab)

/-- A visit to a gate that is on meets no gate in progress. -/
theorem Closed.of_explores {depth : Nat} {m m' : Marks} (hp : s.view.PartOf h)
    (hm : Closed s h m) (hr : Ready s h depth g m) (hon : s.Active g)
    (hm' : Explores s h [g] m m') : Closed s h m' := by
  intro q hq hdecided y hqy
  refine Marks.decided_of_reached (hm'.looked hm.looked q hq hdecided y hqy) fun hprogress => ?_
  have hprogress₀ := (hm'.keeps.inProgress y.id).mp hprogress
  rcases hm'.fresh q hq hdecided with hold | ⟨g', hg', hgq⟩
  · obtain ⟨d, hd⟩ := hm q hq hold y hqy
    rw [hd] at hprogress₀
    cases hprogress₀
  · -- The gate in progress demands `g`, and `g` leads back to it.
    rw [List.mem_singleton.mp hg'] at hgq
    have hback := hr.demanded y (mem_of_demands hp hqy) hprogress₀
    exact Scope.not_active_of_cycle ((TransGen.tail' hgq hqy).trans hback) hon

/-- What is told on a visit to the gates `gs`, at most one of which is off: the cycle that is
reached from them, unless it is decided already. -/
inductive Tells (s : Scope) (m : Marks) (gs : List Gate) : List Event → Prop
  | nothing (hnone : ∀ g ∈ gs, ∀ x, ReflTransGen s.Demands g x → TransGen s.Demands x x →
      m.Decided x.id) : Tells s m gs []
  | cycle {g x : Gate} (hg : g ∈ gs) (hgx : ReflTransGen s.Demands g x)
      (hx : TransGen s.Demands x x) (hm : ¬m.Decided x.id) : Tells s m gs [.cycle x.name]

theorem Tells.eq_nil_of_active {m : Marks} {events : List Event} (he : Tells s m [g] events)
    (hon : s.Active g) : events = [] := by
  cases he with
  | nothing => rfl
  | cycle hg hgx hx =>
    rw [List.mem_singleton.mp hg] at hgx
    exact absurd (hon.of_reach hgx) (Scope.not_active_of_cycle hx)

theorem Tells.cons_of_active (hp : s.view.PartOf h) {rest : List Gate} {m m₁ : Marks}
    {events : List Event} (hon : s.Active g) (hm₁ : Explores s h [g] m m₁)
    (he : Tells s m₁ rest events) : Tells s m (g :: rest) events := by
  have hoff : ∀ x, TransGen s.Demands x x → ¬ReflTransGen s.Demands g x :=
    fun x hx hgx => Scope.not_active_of_cycle hx (hon.of_reach hgx)
  cases he with
  | nothing hnone =>
    refine .nothing fun q hq x hqx hx => ?_
    rcases List.mem_cons.mp hq with rfl | hq
    · exact absurd hqx (hoff x hx)
    · rcases hm₁.fresh x (mem_of_cycle hp hx) (hnone q hq x hqx hx) with hold | ⟨g', hg', hgx⟩
      · exact hold
      · rw [List.mem_singleton.mp hg'] at hgx
        exact absurd hgx (hoff x hx)
  | cycle hq hqx hx hundecided =>
    exact .cycle (List.mem_cons_of_mem g hq) hqx hx fun hdecided =>
      hundecided (hm₁.keeps.of_decided hdecided)

/-- What is told while `g` is in progress is what the visit to `g` tells. -/
theorem Tells.visit {m : Marks} {events : List Event} (hmark : m.find? g.id = none)
    (he : Tells s (m.set g.id .inProgress) (s.demanded g) events) : Tells s m [g] events := by
  cases he with
  | nothing hnone =>
    refine .nothing fun g' hg' x hgx hx => ?_
    rw [List.mem_singleton.mp hg'] at hgx
    -- Every way from `g` into a cycle, `g` itself on it or not, begins with what `g` demands.
    obtain ⟨p, hgp, hpx⟩ : ∃ p, s.Demands g p ∧ ReflTransGen s.Demands p x :=
      TransGen.head'_iff.mp (hx.trans_right hgx)
    exact (Marks.decided_set_inProgress hmark).mp
      (hnone p (Scope.mem_demanded_iff.mpr hgp) x hpx hx)
  | cycle hp hpx hx hundecided =>
    refine .cycle (List.mem_singleton_self g) (hpx.head (Scope.mem_demanded_iff.mp hp)) hx ?_
    rw [← Marks.decided_set_inProgress hmark]
    exact hundecided

theorem visitAll_tells (hn : h.Numbered) (hp : s.view.PartOf h) {depth : Nat} {gs : List Gate}
    {m : Marks} (hon : gs.Pairwise fun p _ => s.Active p) (hm : Agrees s h m)
    (hc : Closed s h m)
    (hr : ∀ g ∈ gs, ∀ m', m.Extends m' → Agrees s h m' → Ready s h depth g m')
    (hv : ∀ g m', Ready s h depth g m' → Closed s h m' →
      Tells s m' [g] (visit s depth g m').events) :
    Tells s m gs (visitAll (visit s depth) gs m).events := by
  induction gs generalizing m with
  | nil => exact .nothing fun g hg => absurd hg List.not_mem_nil
  | cons g rest ih =>
    have hready := hr g List.mem_cons_self m (Marks.Extends.refl m) hm
    have htells := hv g m hready hc
    cases rest with
    | nil =>
      rw [events_visitAll_singleton]
      exact htells
    | cons g' rest =>
      obtain ⟨hfirst, hrest⟩ := List.pairwise_cons.mp hon
      have hgon : s.Active g := hfirst g' List.mem_cons_self
      have hexplores := visit_explores hn hp hready
      have hlater := ih hrest hexplores.agrees (hc.of_explores hp hready hgon hexplores)
        fun q hq m' hext => hr q (List.mem_cons_of_mem g hq) m' (hexplores.keeps.trans hext)
      rw [events_visitAll_cons, htells.eq_nil_of_active hgon, List.nil_append]
      exact hlater.cons_of_active hp hgon hexplores

theorem visit_tells_of_reached (hp : s.view.PartOf h) {depth : Nat} {m : Marks}
    {progress : Progress} (hr : Ready s h depth g m) (hc : Closed s h m)
    (hmark : m.find? g.id = some progress) : Tells s m [g] (visit s depth g m).events := by
  cases progress with
  | inProgress =>
    rw [events_visit_of_inProgress hmark]
    refine .cycle (List.mem_singleton_self g) ReflTransGen.refl (hr.demanded g hr.mem hmark) ?_
    intro hdecided
    obtain ⟨d, hd⟩ := hdecided
    rw [hmark] at hd
    cases hd
  | decided d =>
    rw [events_visit_of_decided hmark]
    refine .nothing fun g' hg' x hgx _ => ?_
    rw [List.mem_singleton.mp hg'] at hgx
    exact hc.of_reach hp hr.mem ⟨d, hmark⟩ hgx

/-- A visit tells of the cycle that is reached from the gate, unless it was decided before. -/
theorem visit_tells (hn : h.Numbered) (hp : s.view.PartOf h) {depth : Nat} {m : Marks}
    (hr : Ready s h depth g m) (hc : Closed s h m) :
    Tells s m [g] (visit s depth g m).events := by
  induction depth generalizing g m with
  | zero =>
    cases hmark : m.find? g.id with
    | none => exact absurd (hr.depth_pos hmark) (Nat.lt_irrefl 0)
    | some progress => exact visit_tells_of_reached hp hr hc hmark
  | succ depth ih =>
    cases hmark : m.find? g.id with
    | some progress => exact visit_tells_of_reached hp hr hc hmark
    | none =>
      have hc' : Closed s h (m.set g.id .inProgress) := by
        intro q hq hdecided p hqp
        rw [Marks.decided_set_inProgress hmark] at hdecided ⊢
        exact hc q hq hdecided p hqp
      rw [events_visit_of_unreached hmark, (visit_runs hn hp hr hmark).2]
      refine (visitAll_tells hn hp (Scope.pairwise_demanded s g)
        (hr.agrees.set_inProgress g.id) hc' (fun p hgp m' hext hm' => ?_) fun p m' => ih).visit hmark
      exact hr.of_demands hn hp hmark (Scope.mem_demanded_iff.mp hgp) hm' hext

end Resolver
end FeatureGates
