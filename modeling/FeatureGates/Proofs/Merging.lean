import FeatureGates.Proofs.ByteOrder
import FeatureGates.Proofs.Exploration
import FeatureGates.Proofs.NameIndex
import Mathlib.Data.Prod.Lex

/-!
Flights brought into a report.

Flights are brought in one by one, and each may change a decision on a gate and the flights that
are there already.  What becomes of a flight depends on the names of the gates only, and no flight
changes these.  So flights that are brought in at several times come to the same as all of them at
once, and what is told of them does not depend on what was brought in before.
-/

namespace FeatureGates

namespace Report

/-! ## What flights do -/

/-- What flights of the given names make of the decision on a gate. -/
def claimed (policy : CollisionPolicy) (r : Report) (flights : List String) (gate : String)
    (d : Decision) : Decision :=
  if policy = .lastWriterWins ∧ ∃ f ∈ flights, r.gateOf? f = some gate then Decision.flight else d

/-- Whether a flight is kept, as far as the gates are concerned. -/
def admits (policy : CollisionPolicy) (r : Report) (flight : String) : Bool :=
  policy = .lastWriterWins || (r.entry? flight).isNone

/-- What is told of flights that have the names of gates. -/
def collisions (policy : CollisionPolicy) (r : Report) (flights : List String) : List Event :=
  (flights.filter fun f => (r.entry? f).isSome).map fun f =>
    .flightCollision f (policy = .lastWriterWins)

variable (policy : CollisionPolicy) (r : Report)

/-! No change of decisions has an influence on what becomes of a flight. -/

theorem claimed_map (f : String → Decision → Decision) (flights : Flights) (names : List String) :
    claimed policy ⟨r.gates.map f, flights⟩ names = r.claimed policy names := by
  funext gate d
  simp only [claimed, gateOf?_map]

theorem admits_map (f : String → Decision → Decision) (flights : Flights) (flight : String) :
    admits policy ⟨r.gates.map f, flights⟩ flight = r.admits policy flight := by
  rw [admits, admits, entry?_map, Option.isNone_map]

theorem collisions_map (f : String → Decision → Decision) (flights : Flights)
    (names : List String) :
    collisions policy ⟨r.gates.map f, flights⟩ names = collisions policy r names := by
  simp only [collisions, entry?_map, Option.isSome_map]

theorem collisions_cons (flight : String) (rest : List String) :
    collisions policy r (flight :: rest) =
      collisions policy r [flight] ++ collisions policy r rest := by
  rw [collisions, ← List.singleton_append, List.filter_append, List.map_append]
  rfl

theorem claimed_nil (gate : String) (d : Decision) : r.claimed policy [] gate d = d := by
  simp [claimed]

theorem claimed_reject (flights : List String) (gate : String) (d : Decision) :
    r.claimed .reject flights gate d = d := by
  simp [claimed]

theorem claimed_append (first second : List String) (gate : String) (d : Decision) :
    r.claimed policy (first ++ second) gate d =
      r.claimed policy second gate (r.claimed policy first gate d) := by
  have happend : (∃ f ∈ first ++ second, r.gateOf? f = some gate) ↔
      (∃ f ∈ first, r.gateOf? f = some gate) ∨ ∃ f ∈ second, r.gateOf? f = some gate := by
    simp only [List.mem_append, or_and_right, exists_or]
  simp only [claimed, happend]
  by_cases hpolicy : policy = .lastWriterWins
  · by_cases hlater : ∃ f ∈ second, r.gateOf? f = some gate
    · simp only [hpolicy, hlater, or_true, and_true, if_true]
    · simp only [hpolicy, hlater, or_false, true_and, if_false]
  · simp only [hpolicy, false_and, if_false]

theorem claimed_congr {names names' : List String} (h : ∀ f, f ∈ names ↔ f ∈ names') :
    r.claimed policy names = r.claimed policy names' := by
  funext gate d
  simp only [claimed, h]

/-! ## One flight, and flights one after another -/

theorem addFlight_eq (flight value : String) :
    (r.addFlight policy flight value).answer =
        ⟨r.gates.map (r.claimed policy [flight]),
          if r.admits policy flight then r.flights.insert flight value else r.flights⟩ ∧
      (r.addFlight policy flight value).events = collisions policy r [flight] := by
  rw [addFlight]
  cases hentry : r.entry? flight with
  | none =>
    have hsame : r.gates.map (r.claimed policy [flight]) = r.gates :=
      Directory.map_eq_self fun e _ => by simp [claimed, gateOf?, hentry]
    have hadmits : r.admits policy flight = true := by simp [admits, hentry]
    have hnone : collisions policy r [flight] = [] := by simp [collisions, hentry]
    rw [hsame, hadmits, hnone]
    exact ⟨rfl, rfl⟩
  | some entry =>
    have hcollision : collisions policy r [flight] =
        [.flightCollision flight (policy = .lastWriterWins)] := by simp [collisions, hentry]
    rw [hcollision]
    cases policy with
    | reject =>
      have hsame : r.gates.map (r.claimed .reject [flight]) = r.gates :=
        Directory.map_eq_self fun e _ => r.claimed_reject _ e.1 e.2
      have hadmits : r.admits .reject flight = false := by simp [admits, hentry]
      rw [hsame, hadmits]
      exact ⟨rfl, rfl⟩
    | lastWriterWins =>
      have hmem : ∃ e ∈ r.gates.entries, e.1 = entry.1 :=
        ⟨entry, List.mem_of_find?_eq_some hentry, rfl⟩
      have hgates : r.gates.insert entry.1 Decision.flight =
          r.gates.map (r.claimed .lastWriterWins [flight]) := by
        rw [Directory.insert_of_mem _ hmem]
        refine Directory.map_congr fun e _ => ?_
        have hgate : r.gateOf? flight = some entry.1 := by
          rw [gateOf?, hentry]
          rfl
        have hclaims : (∃ f ∈ [flight], r.gateOf? f = some e.1) ↔ e.1 = entry.1 := by
          simp [hgate, eq_comm]
        simp only [claimed, hclaims, true_and]
      have hadmits : r.admits .lastWriterWins flight = true := rfl
      rw [← hgates, hadmits]
      exact ⟨rfl, rfl⟩

theorem foldlM_addFlight_eq (flights : List (String × String)) :
    let n := flights.foldlM (fun r entry => r.addFlight policy entry.1 entry.2) r
    n.answer = ⟨r.gates.map (r.claimed policy (flights.map (·.1))),
        r.flights.insertAll (flights.filter (r.admits policy ·.1))⟩ ∧
      n.events = collisions policy r (flights.map (·.1)) := by
  induction flights generalizing r with
  | nil =>
    have hsame : r.gates.map (r.claimed policy []) = r.gates :=
      Directory.map_eq_self fun e _ => r.claimed_nil policy e.1 e.2
    exact ⟨congrArg (Report.mk · r.flights) hsame.symm, rfl⟩
  | cons e rest ih =>
    obtain ⟨hanswer, hevents⟩ := r.addFlight_eq policy e.1 e.2
    obtain ⟨hrest, htold⟩ := ih (r.addFlight policy e.1 e.2).answer
    simp only [List.foldlM_cons, Noted.answer_bind, Noted.events_bind]
    rw [hrest, htold, hevents, hanswer, claimed_map, collisions_map, ← collisions_cons]
    refine ⟨?_, rfl⟩
    have hgates : (r.gates.map (r.claimed policy [e.1])).map (r.claimed policy (rest.map (·.1))) =
        r.gates.map (r.claimed policy ((e :: rest).map (·.1))) := by
      rw [Directory.map_map]
      exact Directory.map_congr fun e' _ =>
        (r.claimed_append policy [e.1] (rest.map (·.1)) e'.1 e'.2).symm
    have hflights : (if r.admits policy e.1 then r.flights.insert e.1 e.2 else r.flights).insertAll
        (rest.filter (r.admits policy ·.1)) =
        r.flights.insertAll ((e :: rest).filter (r.admits policy ·.1)) := by
      by_cases hadmits : r.admits policy e.1 = true
      · rw [if_pos hadmits, List.filter_cons, if_pos hadmits]
        rfl
      · rw [if_neg hadmits, List.filter_cons, if_neg hadmits]
    simp only [admits_map, hgates, hflights]

theorem addFlights_eq (flights : Flights) :
    (r.addFlights policy flights).answer = ⟨r.gates.map (r.claimed policy flights.names),
        r.flights.union (flights.filter fun f _ => r.admits policy f)⟩ ∧
      (r.addFlights policy flights).events = collisions policy r flights.names :=
  r.foldlM_addFlight_eq policy flights.entries

theorem gates_rejecting (flights : Flights) :
    (r.addFlights .reject flights).answer.gates = r.gates := by
  rw [(r.addFlights_eq .reject flights).1]
  exact Directory.map_eq_self fun e _ => r.claimed_reject _ e.1 e.2

/-! ## Flights at several times -/

theorem claimed_union (first second : Flights) (gate : String) (d : Decision) :
    r.claimed policy second.names gate (r.claimed policy first.names gate d) =
      r.claimed policy (first.union second).names gate d := by
  rw [← claimed_append]
  refine congrFun (congrFun (r.claimed_congr policy fun f => ?_) gate) d
  rw [List.mem_append, Directory.mem_names_union]

theorem union_union_filter (d first second : Flights) (p : String → Bool) :
    (d.union (first.filter fun f _ => p f)).union (second.filter fun f _ => p f) =
      d.union ((first.union second).filter fun f _ => p f) := by
  refine Directory.ext_find? fun name => ?_
  simp only [Directory.find?_union, Directory.find?_filter]
  by_cases hp : p name = true
  · simp only [hp, if_true, Option.or_assoc]
  · simp only [hp, if_false, Option.none_or, Bool.false_eq_true]

theorem addFlights_addFlights (first second : Flights) :
    ((r.addFlights policy first).answer.addFlights policy second).answer =
      (r.addFlights policy (first.union second)).answer := by
  rw [(addFlights_eq policy _ second).1, (addFlights_eq policy r first).1,
    (addFlights_eq policy r _).1]
  have hgates : (r.gates.map (r.claimed policy first.names)).map (r.claimed policy second.names) =
      r.gates.map (r.claimed policy (first.union second).names) := by
    rw [Directory.map_map]
    exact Directory.map_congr fun e _ => r.claimed_union policy first second e.1 e.2
  simp only [claimed_map, admits_map, hgates, union_union_filter]

/-! ## The order of flights -/

/-- The order in which flights are sorted: by the bytes of their names, then by those of their
values. -/
def sortsBefore (a b : String × String) : Bool :=
  decide (Text.bytes a.1 < Text.bytes b.1) ||
    (a.1 == b.1 && decide (Text.bytes a.2 ≤ Text.bytes b.2))

theorem sortsBefore_iff (a b : String × String) : sortsBefore a b = true ↔ toLex a ≤ toLex b := by
  have hvalues : Text.bytes a.2 ≤ Text.bytes b.2 ↔ a.2 ≤ b.2 :=
    not_congr (Text.lt_iff_bytes_lt b.2 a.2).symm |>.trans not_lt
  rw [Prod.Lex.toLex_le_toLex, sortsBefore, Text.lt_iff_bytes_lt]
  simp [hvalues]

theorem mergeSort_eq_entries {flights : Flights} {listed : List (String × String)}
    (hlisted : listed.Perm flights.entries) : listed.mergeSort sortsBefore = flights.entries := by
  have hsorted : (listed.mergeSort sortsBefore).Pairwise fun a b => toLex a ≤ toLex b := by
    refine (List.pairwise_mergeSort (fun a b c hab hbc => ?_) (fun a b => ?_) listed).imp
      (sortsBefore_iff _ _).mp
    · rw [sortsBefore_iff] at *
      exact hab.trans hbc
    · rw [Bool.or_eq_true, sortsBefore_iff, sortsBefore_iff]
      exact le_total _ _
  have hascending : flights.entries.Pairwise fun a b => toLex a ≤ toLex b :=
    flights.ascending.imp fun h => Prod.Lex.toLex_le_toLex.mpr (Or.inl h)
  refine List.Perm.eq_of_pairwise (fun a b _ _ hab hba => ?_) hsorted hascending
    ((List.mergeSort_perm listed sortsBefore).trans hlisted)
  exact toLex.injective (le_antisymm hab hba)

theorem collisions_eq (flights : List String) : collisions policy r flights =
    (flights.filter fun f => ∃ gate ∈ r.gates.names, Text.fold gate = Text.fold f).map fun f =>
      .flightCollision f (policy = .lastWriterWins) := by
  rw [collisions]
  refine congrArg _ (List.filter_congr fun f _ => ?_)
  rw [Bool.eq_iff_iff, isSome_entry?_iff, decide_eq_true_iff]

end Report

namespace IndexedReport

/-- Brings in flights as a map happens to list them.  They are sorted first, and the index tells
which of them have names of gates. -/
def addListed (policy : CollisionPolicy) (x : IndexedReport) (listed : List (String × String)) :
    Noted IndexedReport :=
  (listed.mergeSort Report.sortsBefore).foldlM
    (fun (x : IndexedReport) e => x.addFlight policy e.1 e.2) x

theorem map_report_foldlM (policy : CollisionPolicy) (flights : List (String × String))
    (x : IndexedReport) :
    (flights.foldlM (fun (x : IndexedReport) e => x.addFlight policy e.1 e.2) x).map (·.report) =
      flights.foldlM (fun (r : Report) e => r.addFlight policy e.1 e.2) x.report := by
  induction flights generalizing x with
  | nil => rfl
  | cons e rest ih =>
    rw [List.foldlM_cons, List.foldlM_cons, ← map_report_addFlight]
    exact congrArg (fun n : Noted Report => Noted.mk n.answer (_ ++ n.notices))
      (ih (x.addFlight policy e.1 e.2).answer)

/-- However a map lists its flights, and with an index or without one, the same comes out. -/
theorem map_report_addListed (policy : CollisionPolicy) (x : IndexedReport) {flights : Flights}
    {listed : List (String × String)} (hlisted : listed.Perm flights.entries) :
    (x.addListed policy listed).map (·.report) = x.report.addFlights policy flights := by
  rw [addListed, Report.mergeSort_eq_entries hlisted, map_report_foldlM]
  rfl

end IndexedReport

namespace Report

/-- Flights that are brought in twice come to the same report as all of them at once, where the
second value of a flight replaces the first.  Each time one event is told for every flight that has
the name of a gate, by the bytes of their names.  The order in which a map lists its flights does
not matter, nor whether names are sought in an index; and if flights that have the names of gates
are rejected, the decisions stay as they are. -/
theorem addFlights_compose (policy : CollisionPolicy) (r : Report) (first second : Flights) :
    let before := r.addFlights policy first
    let both := before.answer.addFlights policy second
    let told (flights : Flights) : List Event :=
      (flights.names.filter fun f => ∃ gate ∈ r.gates.names, Text.fold gate = Text.fold f).map
        fun f => .flightCollision f (policy = .lastWriterWins)
    both.answer = (r.addFlights policy (first.union second)).answer ∧
      (∀ name, (first.union second).find? name = (second.find? name).or (first.find? name)) ∧
      before.events = told first ∧ both.events = told second ∧
      (first.names.Pairwise fun f g => Text.bytes f < Text.bytes g) ∧
      (∃ x : IndexedReport, x.report = r) ∧
      (∀ x : IndexedReport, x.report = r → ∀ listed, listed.Perm first.entries →
        (x.addListed policy listed).map (·.report) = before) ∧
      (r.addFlights .reject first).answer.gates = r.gates := by
  intro before both told
  obtain ⟨hbefore, hfirst⟩ := r.addFlights_eq policy first
  refine ⟨r.addFlights_addFlights policy first second, first.find?_union second, ?_, ?_, ?_,
    ⟨.of r, rfl⟩, ?_, ?_⟩
  · exact hfirst.trans (r.collisions_eq policy first.names)
  · refine (addFlights_eq policy _ second).2.trans ?_
    rw [hbefore, collisions_map]
    exact r.collisions_eq policy second.names
  · refine List.pairwise_map.mpr (first.ascending.imp fun h => ?_)
    exact (Text.lt_iff_bytes_lt _ _).mp h
  · rintro x rfl listed hlisted
    exact x.map_report_addListed policy hlisted
  · exact r.gates_rejecting first

/-- A report on two gates, one of which has been asked for in two spellings. -/
def cart : IndexedReport :=
  ((IndexedReport.empty.add "Cart" .passed).add "search" (.filterFailed 0 .rollout)).add "CART"
    (.error .gateNotFound)

theorem addFlights_compose_cart :
    let first : Flights := Directory.ofList [("SEARCH", "1"), ("beta", "2"), ("ß", "3")]
    let second : Flights := Directory.ofList [("beta", "4"), ("cart", "5"), ("Δ", "6")]
    let listed := [("ß", "3"), ("SEARCH", "1"), ("beta", "2")]
    let before := cart.report.addFlights .lastWriterWins first
    let both := before.answer.addFlights .lastWriterWins second
    listed.Perm first.entries ∧
      both.answer = (cart.report.addFlights .lastWriterWins (first.union second)).answer ∧
      (first.union second).find? "beta" = some "4" ∧
      before.events = [.flightCollision "SEARCH" true] ∧
      both.events = [.flightCollision "cart" true] ∧
      (cart.addListed .lastWriterWins listed).map (·.report) = before ∧
      (cart.report.addFlights .reject first).answer.gates = cart.report.gates := by
  intro first second listed before both
  obtain ⟨hboth, hunion, hbefore, hafter, -, -, hlisted, hreject⟩ :=
    addFlights_compose .lastWriterWins cart.report first second
  have hperm : listed.Perm first.entries := by decide +kernel
  exact ⟨hperm, hboth, hunion "beta", hbefore.trans (by decide +kernel),
    hafter.trans (by decide +kernel), hlisted cart rfl listed hperm, hreject⟩

end Report

end FeatureGates
