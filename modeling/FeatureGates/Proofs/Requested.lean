import FeatureGates.Proofs.Consistency

/-!
Names that were asked for.

A report on named gates lists every name that was asked for, also one that no gate has.  A flight
collides with whatever is listed.  So a flight that has the name of no gate is dropped, and said to
have the name of a configured gate, just when somebody asked for a gate of this name.
-/

namespace FeatureGates

/-- What a collision is for: only flights that have names of gates are dropped or said to collide,
and all others are there, with their values, and on. -/
structure OnlyGatesCollide (h : Hierarchy) (flights : Flights) (merged : Noted Report) : Prop where
  of_dropped : ∀ f ∈ flights.names, f ∉ merged.answer.flights.names → (h.named? f).isSome
  of_told : ∀ f accepted, .flightCollision f accepted ∈ merged.events → (h.named? f).isSome
  kept : ∀ f ∈ flights.names, h.named? f = none →
    merged.answer.flights.find? f = flights.find? f ∧ merged.answer.isActive f = true

namespace Report

variable {report : Report} {flights : Flights}

theorem find?_rejecting (hnone : report.flights = .empty) (f : String) :
    (report.addFlights .reject flights).answer.flights.find? f =
      if (report.gateOf? f).isNone then flights.find? f else none := by
  rw [(report.addFlights_eq .reject flights).1, hnone, Directory.empty_union,
    Directory.find?_filter, gateOf?, Option.isNone_map]
  rfl

theorem told_rejecting {f : String} {accepted : Bool} :
    .flightCollision f accepted ∈ (report.addFlights .reject flights).events ↔
      f ∈ flights.names ∧ (report.gateOf? f).isSome ∧ accepted = false := by
  rw [(report.addFlights_eq .reject flights).2, collisions, List.mem_map, gateOf?,
    Option.isSome_map]
  constructor
  · intro h
    obtain ⟨f', hf', htold⟩ := h
    obtain ⟨rfl, rfl⟩ := Event.flightCollision.inj htold
    obtain ⟨hmem, hlisted⟩ := List.mem_filter.mp hf'
    exact ⟨hmem, hlisted, rfl⟩
  · intro h
    obtain ⟨hmem, hlisted, rfl⟩ := h
    exact ⟨f, List.mem_filter.mpr ⟨hmem, hlisted⟩, rfl⟩

theorem mem_names_rejecting (hnone : report.flights = .empty) {f : String} :
    f ∈ (report.addFlights .reject flights).answer.flights.names ↔
      f ∈ flights.names ∧ report.gateOf? f = none := by
  rw [Directory.mem_names_iff, Directory.mem_names_iff, find?_rejecting hnone]
  cases report.gateOf? f <;> simp

theorem isActive_rejecting (hnone : report.flights = .empty) {f : String} (hf : f ∈ flights.names)
    (hgate : report.gateOf? f = none) :
    (report.addFlights .reject flights).answer.isActive f = true := by
  have hentry : (report.addFlights .reject flights).answer.entry? f = none := by
    unfold entry?
    rw [gates_rejecting]
    exact gateOf?_eq_none_iff.mp hgate
  rw [isActive, get?, hentry]
  exact isSome_flight?_iff.mpr ⟨f, (mem_names_rejecting hnone).mpr ⟨hf, hgate⟩, rfl⟩

/-- Flights that are rejected do so only for gates just when no other name of a flight is listed. -/
theorem onlyGatesCollide_iff (hnone : report.flights = .empty) (h : Hierarchy) :
    OnlyGatesCollide h flights (report.addFlights .reject flights) ↔
      ∀ f ∈ flights.names, (report.gateOf? f).isSome → (h.named? f).isSome := by
  constructor
  · intro hmerged f hf hlisted
    exact hmerged.of_told f false (told_rejecting.mpr ⟨hf, hlisted, rfl⟩)
  · intro honly
    refine ⟨fun f hf hdropped => ?_, fun f accepted htold => ?_, fun f hf hmissing => ?_⟩
    · refine honly f hf (Option.isSome_iff_ne_none.mpr fun hgate => hdropped ?_)
      exact (mem_names_rejecting hnone).mpr ⟨hf, hgate⟩
    · obtain ⟨hf, hlisted, -⟩ := told_rejecting.mp htold
      exact honly f hf hlisted
    · have hgate : report.gateOf? f = none := by
        by_contra hlisted
        have hgates := honly f hf (Option.isSome_iff_ne_none.mpr hlisted)
        rw [hmissing] at hgates
        cases hgates
      refine ⟨?_, isActive_rejecting hnone hf hgate⟩
      rw [find?_rejecting hnone, hgate]
      rfl

end Report

namespace Hierarchy

section

variable {h : Hierarchy} (hl : h.Loaded) (r : Request) (o : Options)
include hl

theorem isSome_gateOf?_report (name : String) :
    ((h.view.report r o).answer.gateOf? name).isSome = (h.named? name).isSome := by
  have hentry := get?_report hl r o name
  rw [Report.get?] at hentry
  rw [Report.gateOf?, Option.isSome_map, ← Option.isSome_map (f := (·.2)), hentry,
    Option.isSome_map]

theorem isSome_gateOf?_reportOn (names : List String) (name : String) :
    ((h.view.reportOn names r o).answer.gateOf? name).isSome = true ↔
      ∃ asked ∈ names, Text.fold asked = Text.fold name := by
  have hentry := get?_reportOn hl r o names name
  rw [Report.get?] at hentry
  rw [Report.gateOf?, Option.isSome_map, ← Option.isSome_map (f := (·.2)), hentry]
  split <;> simp_all

theorem flights_report : (h.view.report r o).answer.flights = .empty := by
  show ((h.view.computed r o).answer.amend h.view r.overrides).answer.flights = _
  rw [Report.flights_amend, flights_computed hl]
  rfl

omit hl in
theorem flights_reportOn (names : List String) :
    (h.view.reportOn names r o).answer.flights = .empty := by
  obtain ⟨l, hl⟩ := (h.view.scope r o).answer.exists_addAll_addNamed names [] .empty
  show (((h.view.scope r o).answer.addNamed names [] .empty).answer.amend h.view
    r.overrides).answer.flights = _
  rw [Report.flights_amend, hl, Report.flights_addAll]
  rfl

/-- On a report on named gates a flight is dropped, and said to collide, just when its name was
asked for.  So it is gates only that flights collide with just when no name of a flight that was
asked for is without a gate.  On the report on all gates that is always so. -/
theorem collides_iff_requested (names : List String) (flights : Flights) :
    let merged := (h.view.reportOn names r o).answer.addFlights .reject flights
    (∀ f ∈ flights.names,
      (f ∉ merged.answer.flights.names ↔ ∃ asked ∈ names, Text.fold asked = Text.fold f) ∧
      (.flightCollision f false ∈ merged.events ↔
        ∃ asked ∈ names, Text.fold asked = Text.fold f)) ∧
    (OnlyGatesCollide h flights merged ↔ ∀ f ∈ flights.names,
      (∃ asked ∈ names, Text.fold asked = Text.fold f) → (h.named? f).isSome) ∧
    OnlyGatesCollide h flights ((h.view.report r o).answer.addFlights .reject flights) := by
  intro merged
  have hnone := flights_reportOn (h := h) r o names
  have hlisted := isSome_gateOf?_reportOn hl r o names
  refine ⟨fun f hf => ⟨?_, ?_⟩, ?_, ?_⟩
  · rw [Report.mem_names_rejecting hnone, ← hlisted, Option.isSome_iff_ne_none]
    exact ⟨fun hdropped hgate => hdropped ⟨hf, hgate⟩, fun hgate hkept => hgate hkept.2⟩
  · rw [Report.told_rejecting, hlisted]
    exact ⟨fun htold => htold.2.1, fun hasked => ⟨hf, hasked, rfl⟩⟩
  · rw [Report.onlyGatesCollide_iff hnone]
    simp only [hlisted]
  · refine (Report.onlyGatesCollide_iff (flights_report hl r o) h).mpr fun f _ hgate => ?_
    rwa [isSome_gateOf?_report hl] at hgate

end

/-- A gate, and nothing of any other name. -/
def booth : Document where
  gates := [("cart", {})]

theorem collides_iff_requested_booth :
    let h : Hierarchy := { gates := booth.toGates }
    let flights : Flights := Directory.ofList [("CART", "1"), ("ghost", "2"), ("beta", "3")]
    let merged := (h.view.reportOn ["cart", "Beta"] {} {}).answer.addFlights .reject flights
    h.Loaded ∧ "CART" ∉ merged.answer.flights.names ∧ "ghost" ∈ merged.answer.flights.names ∧
      .flightCollision "beta" false ∈ merged.events ∧ ¬OnlyGatesCollide h flights merged ∧
      OnlyGatesCollide h flights
        ((h.view.reportOn ["Cart", "other"] {} {}).answer.addFlights .reject flights) := by
  intro h flights merged
  have hl : h.Loaded := ⟨booth, rfl⟩
  obtain ⟨hflights, honly, -⟩ := collides_iff_requested hl {} {} ["cart", "Beta"] flights
  obtain ⟨-, hothers, -⟩ := collides_iff_requested hl {} {} ["Cart", "other"] flights
  have hnames : flights.names = ["CART", "beta", "ghost"] := by decide +kernel
  have hmem : ∀ f ∈ ["CART", "beta", "ghost"], f ∈ flights.names := by simp [hnames]
  have hghost : "ghost" ∈ merged.answer.flights.names := by
    by_contra hdropped
    have hasked := (hflights "ghost" (hmem "ghost" (by decide))).1.mp hdropped
    exact absurd hasked (by decide +kernel)
  refine ⟨hl, (hflights "CART" (hmem "CART" (by decide))).1.mpr (by decide +kernel), hghost,
    (hflights "beta" (hmem "beta" (by decide))).2.mpr (by decide +kernel), fun hgates => ?_,
    hothers.mpr (by decide +kernel)⟩
  exact absurd (honly.mp hgates "beta" (hmem "beta" (by decide)) (by decide +kernel))
    (by decide +kernel)

/-- A flight that has the name of no gate, but one that was asked for, is dropped and said to
collide with a configured gate. -/
theorem not_onlyGatesCollide_ghost :
    let h : Hierarchy := { gates := booth.toGates }
    let flights : Flights := Directory.ofList [("ghost", "1")]
    let merged := (h.view.reportOn ["ghost"] {} {}).answer.addFlights .reject flights
    h.Loaded ∧ h.named? "ghost" = none ∧ merged.answer.flights.entries = [] ∧
      merged.answer.isActive "ghost" = false ∧ merged.events = [.flightCollision "ghost" false] ∧
      Notice.log merged.notices =
        [⟨.warn, "flight 'ghost' collides with a configured gate and was ignored"⟩] ∧
      ¬OnlyGatesCollide h flights merged := by
  intro h flights merged
  have htold : merged.events = [.flightCollision "ghost" false] := by decide +kernel
  have hmissing : h.named? "ghost" = none := rfl
  refine ⟨⟨booth, rfl⟩, hmissing, by decide +kernel, by decide +kernel, htold, by decide +kernel,
    fun hgates => ?_⟩
  have hgate := hgates.of_told "ghost" false (htold ▸ List.mem_singleton_self _)
  rw [hmissing] at hgate
  cases hgate

end Hierarchy
end FeatureGates
