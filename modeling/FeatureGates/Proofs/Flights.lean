import FeatureGates.Proofs.Agreement
import FeatureGates.Proofs.CycleEvents
import FeatureGates.Proofs.Merging

/-!
Reports with flights.

Flights are brought into a report one by one, in the order of their names.  What comes out does not
need that order to be said: a gate that some flight names is on if the policy is that flights win,
and a flight is kept if it wins or names no gate.  Overrides come last, and once.
-/

namespace FeatureGates

namespace Report

/-- Under no name are there two entries. -/
def Single (r : Report) : Prop := ∀ name, (r.entriesUnder name).length ≤ 1

theorem Single.map {r : Report} (hr : r.Single) (f : String → Decision → Decision)
    (flights : Flights) : Single ⟨r.gates.map f, flights⟩ := by
  intro name
  rw [entriesUnder_map, List.length_map]
  exact hr name

theorem Single.eq_of_mem {r : Report} (hr : r.Single) {name : String} {e e' : String × Decision}
    (he : e ∈ r.entriesUnder name) (he' : e' ∈ r.entriesUnder name) : e = e' := by
  have hlength := hr name
  match hlist : r.entriesUnder name, he, he', hlength with
  | [x], he, he', _ => rw [List.mem_singleton.mp he, List.mem_singleton.mp he']

/-- The entry that a name finds is the only one that has this name. -/
theorem Single.name_eq_iff {r : Report} (hr : r.Single) {name : String} {entry e : String × Decision}
    (hentry : r.entry? name = some entry) (he : e ∈ r.gates.entries) :
    e.1 = entry.1 ↔ Text.fold name = Text.fold e.1 := by
  have hunder : entry ∈ r.entriesUnder name := by
    rw [entry?_eq_head?] at hentry
    exact List.mem_of_mem_head? hentry
  constructor
  · intro h
    rw [h, (mem_entriesUnder.mp hunder).2]
  · intro h
    rw [hr.eq_of_mem (mem_entriesUnder.mpr ⟨he, h.symm⟩) hunder]

/-! ## Flights -/

/-- What flights of the given names make of the decision on a gate. -/
def joined (policy : CollisionPolicy) (flights : List String) (name : String) (d : Decision) :
    Decision :=
  if policy = .lastWriterWins ∧ ∃ f ∈ flights, Text.fold f = Text.fold name then Decision.flight
  else d

theorem joined_nil (policy : CollisionPolicy) (name : String) (d : Decision) :
    joined policy [] name d = d := by
  simp [joined]

theorem joined_reject (flights : List String) (name : String) (d : Decision) :
    joined .reject flights name d = d := by
  simp [joined]

/-- In a report with one entry for each gate, the gates that flights claim are those that have their
names. -/
theorem Single.claimed_eq_joined {r : Report} (hr : r.Single) {e : String × Decision}
    (he : e ∈ r.gates.entries) (policy : CollisionPolicy) (flights : List String) (d : Decision) :
    r.claimed policy flights e.1 d = joined policy flights e.1 d := by
  have hgate : ∀ f, r.gateOf? f = some e.1 ↔ Text.fold f = Text.fold e.1 := by
    intro f
    rw [gateOf?]
    cases hentry : r.entry? f with
    | none =>
      rw [entry?_eq_head?, List.head?_eq_none_iff] at hentry
      refine iff_of_false (by simp) fun hfold => ?_
      exact List.not_mem_nil (hentry ▸ mem_entriesUnder.mpr ⟨he, hfold.symm⟩)
    | some entry =>
      rw [Option.map_some, Option.some_inj, ← hr.name_eq_iff hentry he, eq_comm]
  simp only [claimed, joined, hgate]

theorem addFlight_spec {r : Report} (hr : r.Single) (policy : CollisionPolicy)
    (flight value : String) :
    (r.addFlight policy flight value).answer =
        ⟨r.gates.map (joined policy [flight]),
          if r.admits policy flight then r.flights.insert flight value else r.flights⟩ ∧
      (r.addFlight policy flight value).events = collisions policy r [flight] := by
  rw [← Directory.map_congr fun e he => hr.claimed_eq_joined he policy [flight] e.2]
  exact r.addFlight_eq policy flight value

theorem addFlights_spec {r : Report} (hr : r.Single) (hnone : r.flights = .empty)
    (policy : CollisionPolicy) (flights : Flights) :
    (r.addFlights policy flights).answer =
        ⟨r.gates.map (joined policy flights.names), flights.filter fun f _ => r.admits policy f⟩ ∧
      (r.addFlights policy flights).events = collisions policy r flights.names := by
  rw [← Directory.map_congr fun e he => hr.claimed_eq_joined he policy flights.names e.2]
  have hkept := r.addFlights_eq policy flights
  rwa [hnone, Directory.empty_union] at hkept

theorem flights_amend (v : View) (o : Overrides) (r : Report) :
    (r.amend v o).answer.flights =
      r.flights.filter fun f _ => (o.apply f Decision.flight).active := by
  unfold amend
  split
  · rename_i ho
    refine Directory.ext_entries (List.filter_eq_self.mpr fun e _ => ?_).symm
    show (o.apply e.1 Decision.flight).active = true
    rw [Overrides.apply_of_isEmpty ho]
    rfl
  · rfl

theorem flights_addAll (l : List (String × Decision)) (r : Report) :
    (r.addAll l).flights = r.flights := by
  induction l generalizing r with
  | nil => rfl
  | cons e rest ih =>
    refine (ih (r.add e.1 e.2)).trans ?_
    unfold add
    split <;> rfl

end Report

namespace Hierarchy

section

variable {h : Hierarchy} (hl : h.Loaded) (r : Request) (o : Options)
include hl

theorem single_computed : (h.view.computed r o).answer.Single := by
  intro name
  rw [entriesUnder_computed hl]
  cases h.named? name <;> simp

theorem flights_computed : (h.view.computed r o).answer.flights = .empty := by
  rw [answer_computed hl, Report.flights_addAll]
  rfl

theorem isSome_entry?_computed (name : String) :
    ((h.view.computed r o).answer.entry? name).isSome = (h.named? name).isSome := by
  rw [Report.entry?_eq_head?, entriesUnder_computed hl, Option.head?_toList, Option.isSome_map]

theorem isNone_entry?_computed (name : String) :
    ((h.view.computed r o).answer.entry? name).isNone = (h.named? name).isNone := by
  rw [Report.entry?_eq_head?, entriesUnder_computed hl, Option.head?_toList, Option.isNone_map]

/-- The report after flights were brought in and overrides laid over it. -/
theorem entriesUnder_joined (policy : CollisionPolicy) (flights : Flights) (name : String) :
    (((h.view.computed r o).answer.addFlights policy flights).answer.amend h.view
      r.overrides).answer.entriesUnder name =
      ((h.named? name).map fun g => (g.name, r.overrides.apply g.name
        (Report.joined policy flights.names g.name
          ((h.view.scope r o).answer.verdict g)))).toList := by
  rw [Report.entriesUnder_amend, (Report.addFlights_spec (single_computed hl r o)
    (flights_computed hl r o) policy flights).1, Report.entriesUnder_map, entriesUnder_computed hl]
  cases hg : h.named? name with
  | none => rfl
  | some g =>
    have hexists : (Report.joined policy flights.names g.name
        ((h.view.scope r o).answer.verdict g)).isMissing = false := by
      unfold Report.joined
      split
      · rfl
      · exact isMissing_verdict hl r o (mem_of_named? hg)
    have hamend : ∀ d : Decision, d.isMissing = false →
        r.overrides.amend name d = r.overrides.apply g.name d := by
      intro d hd
      rw [r.overrides.amend_congr (fold_name_of_named? hg).symm, Overrides.amend_eq_apply _ _ hd]
    show [(g.name, r.overrides.amend name _)] = [(g.name, _)]
    rw [hamend _ hexists]

/-- A flight is kept if flights win or it names no gate, and if overrides leave it on. -/
theorem flights_joined (policy : CollisionPolicy) (flights : Flights) :
    (((h.view.computed r o).answer.addFlights policy flights).answer.amend h.view
      r.overrides).answer.flights =
      flights.filter fun f _ => (policy = .lastWriterWins || (h.named? f).isNone) &&
        (r.overrides.apply f Decision.flight).active := by
  rw [Report.flights_amend, (Report.addFlights_spec (single_computed hl r o)
    (flights_computed hl r o) policy flights).1]
  refine Directory.ext_entries ((List.filter_filter).trans (List.filter_congr fun e _ => ?_))
  show ((r.overrides.apply e.1 Decision.flight).active && Report.admits policy _ e.1) = _
  rw [Report.admits, isNone_entry?_computed hl, Bool.and_comm]

end

end Hierarchy

/-- What is told when flights were asked for. -/
def Flights.failure : Except FlightFault Flights → List Event
  | .ok _ => []
  | .error fault => [.flightsUnavailable fault]

theorem FlightService.fetch_spec (service : FlightService) (profile : FlightProfile) (timeout : Nat)
    (cancelled : Option Nat) :
    (service.fetch profile timeout cancelled).answer =
        (service.race profile timeout cancelled).2.toOption.getD .empty ∧
      (service.fetch profile timeout cancelled).events =
        Flights.failure (service.race profile timeout cancelled).2 := by
  rw [fetch]
  cases (service.race profile timeout cancelled).2 <;> exact ⟨rfl, rfl⟩

namespace Evaluator

theorem events_report (e : Evaluator) (r : Request) :
    (e.report r).events = (e.store.snapshot.view.computed r e.options).events := by
  refine (Noted.events_bind _ _).trans ?_
  rw [Report.events_amend, List.append_nil]
  rfl

theorem reportWithFlights_spec (e : Evaluator) (r : Request) (cancelled : Option Nat) :
    let v := e.store.snapshot.view
    let computed := v.computed r e.options
    let joined := computed.answer.addFlights e.settings.collisionPolicy
      (e.flights r cancelled).answer
    (e.reportWithFlights r cancelled).answer = (joined.answer.amend v r.overrides).answer ∧
      (e.reportWithFlights r cancelled).events =
        (e.flights r cancelled).events ++ computed.events ++ joined.events := by
  refine ⟨rfl, ?_⟩
  rw [reportWithFlights, Noted.events_bind, Noted.events_bind, Noted.events_bind,
    Report.events_amend, List.append_nil, List.append_assoc]
  rfl

/-- A report with flights, end to end.  A gate has the decision that it would have without flights
and overrides, or is on by the flight that has its name, if flights win; on top of that comes an
override.  The flights are those that win or name no gate, and that no override turns off. -/
theorem reportWithFlights_joins {h : Hierarchy} (hl : h.Loaded) {e : Evaluator}
    (he : e.store.snapshot = h) (r : Request) (cancelled : Option Nat) :
    let s := (h.view.scope r e.options).answer
    let policy := e.settings.collisionPolicy
    let profile := FlightProfile.ofRequest r (e.identity.resolve r) e.settings.defaultEnvironment
    let outcome := (e.flightService.race profile e.settings.flightTimeout cancelled).2
    let fetched : Flights := outcome.toOption.getD .empty
    let plain := e.report r
    let report := e.reportWithFlights r cancelled
    (∀ name, report.answer.entriesUnder name = ((h.named? name).map fun g =>
      (g.name, r.overrides.apply g.name
        (if policy = .lastWriterWins ∧ ∃ f ∈ fetched.names, Text.fold f = Text.fold g.name then
          Decision.flight
        else s.verdict g))).toList) ∧
    report.answer.flights = fetched.filter (fun f _ =>
      (policy = .lastWriterWins || (h.named? f).isNone) &&
        (r.overrides.apply f Decision.flight).active) ∧
    (policy = .reject → report.answer.gates = plain.answer.gates) ∧
    (policy = .lastWriterWins → ∀ name, (∀ f ∈ fetched.names, Text.fold f ≠ Text.fold name) →
      report.answer.entriesUnder name = plain.answer.entriesUnder name) ∧
    (fetched = .empty → report.answer = plain.answer) ∧
    report.events = Flights.failure outcome ++ plain.events ++
      (fetched.names.filter fun f => (h.named? f).isSome).map fun f =>
        .flightCollision f (policy = .lastWriterWins) := by
  subst he
  intro s policy profile outcome fetched plain report
  obtain ⟨hanswer, hfailure⟩ :=
    e.flightService.fetch_spec profile e.settings.flightTimeout cancelled
  have hfetched : (e.flights r cancelled).answer = fetched := hanswer
  have hunavailable : (e.flights r cancelled).events = Flights.failure outcome := hfailure
  obtain ⟨hjoined, htold⟩ := Report.addFlights_spec
    (Hierarchy.single_computed hl r e.options) (Hierarchy.flights_computed hl r e.options)
    policy fetched
  obtain ⟨hreport, hevents⟩ := e.reportWithFlights_spec r cancelled
  rw [hfetched] at hreport hevents
  have hplain : plain.answer = ((e.store.snapshot.view.computed r e.options).answer.amend
      e.store.snapshot.view r.overrides).answer := rfl
  have hentries : ∀ name, report.answer.entriesUnder name = _ := fun name =>
    hreport ▸ Hierarchy.entriesUnder_joined hl r e.options policy fetched name
  refine ⟨hentries, ?_, fun hpolicy => ?_, fun hpolicy name hunnamed => ?_, fun hempty => ?_, ?_⟩
  · rw [hreport]
    exact Hierarchy.flights_joined hl r e.options policy fetched
  · rw [hreport, hplain, Report.gates_amend, Report.gates_amend, hjoined, Directory.map_map, hpolicy]
    exact Directory.map_congr fun entry _ => by rw [Report.joined_reject]
  · have hplainEntries : plain.answer.entriesUnder name = _ :=
      Hierarchy.entriesUnder_joined hl r e.options policy .empty name
    rw [hentries, hplainEntries]
    cases hg : e.store.snapshot.named? name with
    | none => rfl
    | some g =>
      have hno : ¬∃ f ∈ fetched.names, Text.fold f = Text.fold g.name := by
        intro hnamed
        obtain ⟨f, hf, hfold⟩ := hnamed
        exact hunnamed f hf (hfold.trans (Hierarchy.fold_name_of_named? hg))
      have hkept : Report.joined policy fetched.names g.name (s.verdict g) = s.verdict g :=
        if_neg fun h => hno h.2
      have hnone : Report.joined policy [] g.name (s.verdict g) = s.verdict g :=
        Report.joined_nil policy g.name _
      exact congrArg (fun d => [(g.name, r.overrides.apply g.name d)]) (hkept.trans hnone.symm)
  · rw [hreport, hempty]
    rfl
  · refine hevents.trans ?_
    rw [hunavailable, ← events_report]
    refine congrArg (Flights.failure outcome ++ plain.events ++ ·) (htold.trans ?_)
    simp only [Report.collisions, Hierarchy.isSome_entry?_computed hl r e.options]

/-- A gate that waits for another, which a flight is named after. -/
def shop : Document where
  gates := [
    ("Search", {}),
    ("checkout", { filters := [.condition (.campaign ["spring"] [])] }),
    ("audit", { filters := [.parent "checkout"] })]

def trials : FlightService where
  ready := some 20
  answer _ :=
    .ok (Directory.ofList [("search", "4"), ("CHECKOUT", "1"), ("beta", "2"), ("gamma", "3")])

theorem reportWithFlights_joins_shop :
    let h : Hierarchy := { gates := shop.toGates }
    let e : Evaluator := { store := ⟨.memory "", h⟩, flightService := trials }
    let winning : Evaluator := { e with settings := { collisionPolicy := .lastWriterWins } }
    let r : Request := { overrides := { disabled := ["gamma", "SEARCH"], toggled := ["audit"] } }
    let won := winning.reportWithFlights r none
    let kept := e.reportWithFlights r (some 60)
    let late := winning.reportWithFlights r (some 5)
    h.Loaded ∧
      won.answer.entriesUnder "checkout" = [("checkout", Decision.flight)] ∧
      won.answer.entriesUnder "audit" = [("audit", .overridden true .toggled)] ∧
      won.answer.entriesUnder "search" = [("Search", .overridden false .disabled)] ∧
      won.answer.flights.entries = [("CHECKOUT", "1"), ("beta", "2")] ∧
      won.events = [.flightCollision "CHECKOUT" true, .flightCollision "search" true] ∧
      kept.answer.gates = (e.report r).answer.gates ∧
      kept.answer.flights.entries = [("beta", "2")] ∧
      late.answer = (winning.report r).answer ∧
      late.events = [.flightsUnavailable .cancelled] := by
  intro h e winning r won kept late
  have hl : h.Loaded := ⟨shop, rfl⟩
  obtain ⟨hwon, hflights, -, hunnamed, -, hevents⟩ :=
    reportWithFlights_joins hl (e := winning) rfl r none
  obtain ⟨-, hkept, hreject, -, -, -⟩ := reportWithFlights_joins hl (e := e) rfl r (some 60)
  obtain ⟨-, -, -, -, hlate, htold⟩ := reportWithFlights_joins hl (e := winning) rfl r (some 5)
  refine ⟨hl, (hwon "checkout").trans ?_, (hunnamed rfl "audit" ?_).trans ?_,
    (hwon "search").trans ?_, (congrArg Directory.entries hflights).trans ?_, hevents.trans ?_,
    hreject rfl, (congrArg Directory.entries hkept).trans ?_, hlate rfl, htold.trans ?_⟩
  all_goals decide +kernel

end Evaluator
end FeatureGates
