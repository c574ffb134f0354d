import FeatureGates.Proofs.Consistency

/-!
Flights by name.

A report keeps a flight under the spelling it came with, so there may be several flights of one
name, each with a value of its own.  A lookup ignores case and finds the first of them in the order
of their spellings.  That is the flight that was meant unless a name came in two spellings; when one
did, and the values differ, some flight is there and cannot be looked up.
-/

namespace FeatureGates
namespace Report

variable (r : Report) (merges : List (CollisionPolicy × Flights))

/-- The report after flights were brought in any number of times. -/
def addEach : Report := merges.foldl (fun r m => (r.addFlights m.1 m.2).answer) r

/-- The last value that a flight was given, of those that were not rejected. -/
def lastValue (flight : String) : Option String :=
  (merges.reverse.findSome? fun m => if r.admits m.1 flight then m.2.find? flight else none).or
    (r.flights.find? flight)

/-- The names of all flights that there were or that were brought in. -/
def brought : List String := r.flights.names ++ merges.flatMap (·.2.names)

theorem Reached.addEach {r : Report} (hr : r.Reached) : (r.addEach merges).Reached := by
  induction merges generalizing r with
  | nil => exact hr
  | cons m rest ih => exact ih (Reached.addFlights hr m.1 m.2)

/-! ## What is kept -/

theorem find?_addFlights (policy : CollisionPolicy) (flights : Flights) (flight : String) :
    (r.addFlights policy flights).answer.flights.find? flight =
      (if r.admits policy flight then flights.find? flight else none).or
        (r.flights.find? flight) := by
  rw [(r.addFlights_eq policy flights).1, Directory.find?_union, Directory.find?_filter]

theorem find?_addEach (flight : String) :
    (r.addEach merges).flights.find? flight = r.lastValue merges flight := by
  induction merges generalizing r with
  | nil => rfl
  | cons m rest ih =>
    -- The gates keep their names, so later flights are admitted as they are at the start.
    have hadmits : ∀ policy, (r.addFlights m.1 m.2).answer.admits policy flight =
        r.admits policy flight := by
      intro policy
      rw [(r.addFlights_eq m.1 m.2).1, admits_map]
    show ((r.addFlights m.1 m.2).answer.addEach rest).flights.find? flight = _
    rw [ih, lastValue, find?_addFlights, lastValue, List.reverse_cons, List.findSome?_append,
      Option.or_assoc]
    simp only [hadmits, List.findSome?_cons, List.findSome?_nil]
    cases r.admits m.1 flight <;> cases m.2.find? flight <;> rfl

theorem mem_brought {flight value : String} (h : r.lastValue merges flight = some value) :
    flight ∈ r.brought merges := by
  rw [brought, List.mem_append, List.mem_flatMap]
  rcases Option.or_eq_some_iff.mp h with hgiven | ⟨-, hold⟩
  · obtain ⟨m, hm, hvalue⟩ := List.exists_of_findSome?_eq_some hgiven
    split at hvalue
    · exact Or.inr ⟨m, List.mem_reverse.mp hm, Directory.mem_names_iff.mpr ⟨value, hvalue⟩⟩
    · cases hvalue
  · exact Or.inl (Directory.mem_names_iff.mpr ⟨value, hold⟩)

/-! ## What is found -/

variable {r}

theorem flight?_congr {name other : String} (h : Text.fold name = Text.fold other) :
    r.flight? name = r.flight? other := by
  rw [flight?, flight?, h]

theorem flight?_eq_some_iff {name value : String} :
    r.flight? name = some value ↔ ∃ flight, r.flights.find? flight = some value ∧
      IsLeast {other | other ∈ r.flights.names ∧ Text.fold other = Text.fold name} flight := by
  have hfirst : ∀ e, r.flights.entries.find? (fun entry => Text.fold entry.1 = Text.fold name) =
      some e ↔ e ∈ r.flights.entries ∧
        IsLeast {other | other ∈ r.flights.names ∧ Text.fold other = Text.fold name} e.1 := by
    intro e
    simpa using Directory.find?_entries_eq_some_iff
      (d := r.flights) (p := fun other => Text.fold other = Text.fold name) (e := e)
  simp only [flight?, Option.map_eq_some_iff, hfirst, Directory.find?_eq_some_iff]
  constructor
  · intro h
    obtain ⟨e, ⟨he, hleast⟩, rfl⟩ := h
    exact ⟨e.1, he, hleast⟩
  · intro h
    obtain ⟨flight, he, hleast⟩ := h
    exact ⟨(flight, value), ⟨he, hleast⟩, rfl⟩

/-- Every flight finds its own value just when spellings of one name come with one value. -/
theorem finds_own_iff : (∀ e ∈ r.flights.entries, r.flight? e.1 = some e.2) ↔
    ∀ a ∈ r.flights.entries, ∀ b ∈ r.flights.entries,
      Text.fold a.1 = Text.fold b.1 → a.2 = b.2 := by
  constructor
  · intro hown a ha b hb hfold
    have hvalues : some a.2 = some b.2 := calc
      some a.2 = r.flight? a.1 := (hown a ha).symm
      _ = r.flight? b.1 := flight?_congr hfold
      _ = some b.2 := hown b hb
    exact Option.some.inj hvalues
  · intro hvalues e he
    have hfound : (r.flight? e.1).isSome := isSome_flight?_iff.mpr
      ⟨e.1, List.mem_map_of_mem he, rfl⟩
    obtain ⟨value, hvalue⟩ := Option.isSome_iff_exists.mp hfound
    obtain ⟨flight, hflight, ⟨-, hfold⟩, -⟩ := flight?_eq_some_iff.mp hvalue
    have hmem := Directory.find?_eq_some_iff.mp hflight
    exact hvalue.trans (congrArg some (hvalues (flight, value) hmem e he hfold))

theorem flight?_of_one_spelling
    (hone : ∀ f ∈ r.brought merges, ∀ g ∈ r.brought merges, Text.fold f = Text.fold g → f = g)
    {flight : String} (hflight : flight ∈ r.brought merges) :
    (r.addEach merges).flight? flight = r.lastValue merges flight := by
  have honly : ∀ other ∈ (r.addEach merges).flights.names,
      Text.fold other = Text.fold flight → other = flight := by
    intro other hother hfold
    obtain ⟨value, hvalue⟩ := Directory.mem_names_iff.mp hother
    rw [find?_addEach] at hvalue
    exact hone other (r.mem_brought merges hvalue) flight hflight hfold
  ext value
  rw [flight?_eq_some_iff, ← find?_addEach]
  constructor
  · intro h
    obtain ⟨other, hvalue, ⟨hother, hfold⟩, -⟩ := h
    rwa [honly other hother hfold] at hvalue
  · intro hvalue
    have hmem := Directory.mem_names_iff.mpr ⟨value, hvalue⟩
    exact ⟨flight, hvalue, ⟨hmem, rfl⟩, fun other hother =>
      le_of_eq (honly other hother.1 hother.2).symm⟩

/-- What is found under a name after flights were brought in any number of times.  Each flight is
kept with the last value it was given.  A lookup finds the least spelling of a name, so every flight
finds its own value just when spellings of one name have one value.  In particular a flight is found
with the last value it was given if no name came in two spellings. -/
theorem lookup_least_spelling (r : Report) (merges : List (CollisionPolicy × Flights)) :
    let merged := r.addEach merges
    (∀ flight, merged.flights.find? flight = r.lastValue merges flight) ∧
    (∀ name value, merged.flight? name = some value ↔
      ∃ flight, merged.flights.find? flight = some value ∧
        IsLeast {other | other ∈ merged.flights.names ∧ Text.fold other = Text.fold name} flight) ∧
    ((∀ e ∈ merged.flights.entries, merged.flight? e.1 = some e.2) ↔
      ∀ a ∈ merged.flights.entries, ∀ b ∈ merged.flights.entries,
        Text.fold a.1 = Text.fold b.1 → a.2 = b.2) ∧
    ((∀ f ∈ r.brought merges, ∀ g ∈ r.brought merges, Text.fold f = Text.fold g → f = g) →
      ∀ flight ∈ r.brought merges, merged.flight? flight = r.lastValue merges flight) :=
  ⟨r.find?_addEach merges, fun _ _ => flight?_eq_some_iff, finds_own_iff,
    fun hone _ hflight => flight?_of_one_spelling merges hone hflight⟩

theorem lookup_least_spelling_fixture :
    let h : Hierarchy := { gates := fixture.toGates }
    let r := (h.view.report {} {}).answer
    let merges : List (CollisionPolicy × Flights) :=
      [(.lastWriterWins, Directory.ofList [("CART", "1"), ("Δ", "2")]),
        (.reject, Directory.ofList [("CART", "3"), ("beta", "4"), ("Δ", "5")])]
    (r.addEach merges).Reached ∧ (r.addEach merges).flights.find? "CART" = some "1" ∧
      (r.addEach merges).flight? "Δ" = some "5" ∧
      ∀ e ∈ (r.addEach merges).flights.entries, (r.addEach merges).flight? e.1 = some e.2 := by
  intro h r merges
  obtain ⟨hkept, -, hown, hlast⟩ := lookup_least_spelling r merges
  have hdelta := hlast (by decide +kernel) "Δ" (by decide +kernel)
  exact ⟨(Reached.report h.view {} {}).addEach merges, (hkept "CART").trans (by decide +kernel),
    hdelta.trans (by decide +kernel), hown.mpr (by decide +kernel)⟩

/-- A flight that is there is found with the value of another one, whether both came together or one
after the other. -/
theorem not_own_value_spellings :
    let h : Hierarchy := { gates := fixture.toGates }
    let r := (h.view.report {} {}).answer
    let together := r.addEach [(.reject, Directory.ofList [("a", "1"), ("A", "2")])]
    let apart := r.addEach
      [(.reject, Directory.ofList [("A", "2")]), (.reject, Directory.ofList [("a", "1")])]
    together.Reached ∧ apart.Reached ∧
      together.flights.entries = [("A", "2"), ("a", "1")] ∧
      apart.flights.entries = together.flights.entries ∧
      together.flight? "a" = some "2" ∧ apart.flight? "a" = some "2" ∧
      ¬∀ e ∈ together.flights.entries, together.flight? e.1 = some e.2 := by
  intro h r together apart
  have hr : r.Reached := Reached.report h.view {} {}
  have hentries : together.flights.entries = [("A", "2"), ("a", "1")] := by decide +kernel
  have hfound : together.flight? "a" = some "2" := by decide +kernel
  refine ⟨hr.addEach _, hr.addEach _, hentries, by decide +kernel, hfound, by decide +kernel,
    fun hown => ?_⟩
  have hvalue : some "2" = some "1" :=
    hfound.symm.trans (hown ("a", "1") (hentries ▸ List.mem_cons_of_mem _ List.mem_cons_self))
  exact absurd hvalue (by decide)

end Report
end FeatureGates
