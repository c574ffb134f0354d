import FeatureGates.Proofs.Flights

/-!
Overrides lie on top.

A request with overrides is answered like the same request without them, and then every decision
that is reported about a gate is overridden once.  What gates are decided by does not know of
overrides, so a gate that is overridden has the same influence on other gates as before, and the
same cycles are told of.

There is one way around this.  An identity is given the whole request, and one that looks at the
overrides can take a customer for another because of them.  So the two requests have to come from
the same customer.
-/

namespace FeatureGates

def Request.withoutOverrides (r : Request) : Request := { r with overrides := {} }

/-- A gate in a listing under overrides. -/
def ListedGate.override (o : Overrides) (l : ListedGate) : ListedGate :=
  let decision := o.apply l.name ⟨l.active, l.reason⟩
  { l with active := decision.active, reason := decision.reason }

/-- Overrides have no part in who the customer of the request is. -/
def Identity.SameCustomer (i : Identity) (r : Request) : Prop :=
  i.resolve r.withoutOverrides = i.resolve r

/-- A chain looks at no more than its sources do. -/
theorem Identity.SameCustomer.chain {sources : List Identity} {r : Request}
    (hsources : ∀ i ∈ sources, i.SameCustomer r) : (Identity.chain sources).SameCustomer r := by
  rw [SameCustomer, resolve, resolve]
  induction sources with
  | nil => rfl
  | cons first rest ih =>
    rw [firstNonEmpty, firstNonEmpty, hsources first List.mem_cons_self,
      ih fun i hi => hsources i (List.mem_cons_of_mem first hi)]

theorem Overrides.amend_eq_ite (o : Overrides) (gate : String) (d : Decision) :
    o.amend gate d = if d.isMissing then d else o.apply gate d := by
  by_cases hd : d.isMissing = true
  · simp [amend, hd]
  · rw [if_neg hd, amend_eq_apply o gate (by simpa using hd)]

namespace Report

/-- Where overriding any entry comes down to `f`, overriding the report does. -/
theorem answer_amend_eq {v : View} {o : Overrides} {r : Report} {f : String → Decision → Decision}
    (hflights : r.flights = .empty) (hf : ∀ e ∈ r.gates.entries, o.amend e.1 e.2 = f e.1 e.2) :
    (r.amend v o).answer = ⟨r.gates.map f, r.flights⟩ := by
  have hgates : (r.amend v o).answer.gates = r.gates.map f := by
    rw [gates_amend]
    exact Directory.map_congr hf
  have hnone : (r.amend v o).answer.flights = r.flights := by
    rw [flights_amend, hflights]
    rfl
  rw [← hgates, ← hnone]

end Report

namespace Hierarchy

section

variable {h : Hierarchy} (hl : h.Loaded) (r : Request) (o : Options)

theorem amend_withoutOverrides (name : String) (d : Decision) :
    r.withoutOverrides.overrides.amend name d = d :=
  Overrides.amend_of_isEmpty rfl name d

theorem events_report : (h.view.report r o).events = (h.view.decideAll r o).events := by
  rw [View.report, Noted.events_bind, Report.events_amend, List.append_nil]
  rfl

theorem events_reportOn (names : List String) :
    (h.view.reportOn names r o).events =
      ((h.view.scope r o).answer.addNamed names [] .empty).events := by
  rw [View.reportOn, Noted.events_bind, View.events_scope, List.nil_append, Noted.events_bind,
    Report.events_amend, List.append_nil]

section

variable (ho : o.identity.SameCustomer r)
include ho

theorem scope_withoutOverrides : h.view.scope r.withoutOverrides o = h.view.scope r o := by
  unfold View.scope
  rw [ho]
  rfl

theorem decideAll_withoutOverrides :
    h.view.decideAll r.withoutOverrides o = h.view.decideAll r o := by
  rw [View.decideAll, View.decideAll, scope_withoutOverrides r o ho]

theorem answer_report_withoutOverrides :
    (h.view.report r.withoutOverrides o).answer = (h.view.computed r o).answer := by
  show (h.view.computed r.withoutOverrides o).answer = _
  rw [View.computed, View.computed, decideAll_withoutOverrides r o ho]

theorem answer_reportOn_withoutOverrides (names : List String) :
    (h.view.reportOn names r.withoutOverrides o).answer =
      ((h.view.scope r o).answer.addNamed names [] .empty).answer := by
  rw [← scope_withoutOverrides r o ho]
  rfl

end

include hl

theorem isMissing_verdictOn (name : String) :
    ((h.view.scope r o).answer.verdictOn name).isMissing = (h.named? name).isNone := by
  show Decision.isMissing (((h.named? name).map _).getD _) = _
  cases hg : h.named? name with
  | none => rfl
  | some g => exact isMissing_verdict hl r o (mem_of_named? hg)

theorem isMissing_of_mem_computed {e : String × Decision}
    (he : e ∈ (h.view.computed r o).answer.gates.entries) : e.2.isMissing = false := by
  have hunder := Report.mem_entriesUnder.mpr ⟨he, rfl⟩
  rw [entriesUnder_computed hl, Option.mem_toList] at hunder
  obtain ⟨g, hg, rfl⟩ := Option.map_eq_some_iff.mp hunder
  exact isMissing_verdict hl r o (mem_of_named? hg)

theorem answer_addNamed (names : List String) :
    ((h.view.scope r o).answer.addNamed names [] .empty).answer = Report.empty.addAll
      (names.map fun name => ((h.view.scope r o).answer.spelling name,
        (h.view.scope r o).answer.verdictOn name)) :=
  Scope.answer_addNamed hl.numbered (View.partOf_view h) names (Resolver.settled_nil _ h) .empty

/-- Just the names without a gate are answered with there being none. -/
theorem isMissing_of_mem_addNamed {names : List String} {e : String × Decision}
    (he : e ∈ ((h.view.scope r o).answer.addNamed names [] .empty).answer.gates.entries) :
    e.2.isMissing = (h.named? e.1).isNone := by
  have hunder := Report.mem_entriesUnder.mpr ⟨he, rfl⟩
  rw [answer_addNamed hl, Report.entriesUnder_addAll_empty, Option.mem_toList] at hunder
  obtain ⟨name, -, rfl⟩ := List.mem_map.mp (List.mem_of_find?_eq_some hunder)
  rw [isMissing_verdictOn hl, named?_congr (fold_spelling r o name)]

theorem answer_report_eq (ho : o.identity.SameCustomer r) :
    (h.view.report r o).answer =
      ⟨(h.view.report r.withoutOverrides o).answer.gates.map r.overrides.apply,
        (h.view.report r.withoutOverrides o).answer.flights⟩ := by
  rw [answer_report_withoutOverrides r o ho]
  refine Report.answer_amend_eq (flights_computed hl r o) fun e he => ?_
  exact Overrides.amend_eq_apply _ _ (isMissing_of_mem_computed hl r o he)

theorem answer_reportOn_eq (ho : o.identity.SameCustomer r) (names : List String) :
    (h.view.reportOn names r o).answer =
      ⟨(h.view.reportOn names r.withoutOverrides o).answer.gates.map fun name d =>
          if d.isMissing then d else r.overrides.apply name d,
        (h.view.reportOn names r.withoutOverrides o).answer.flights⟩ := by
  rw [answer_reportOn_withoutOverrides r o ho]
  refine Report.answer_amend_eq ?_ fun e _ => r.overrides.amend_eq_ite e.1 e.2
  rw [answer_addNamed hl, Report.flights_addAll]
  rfl

theorem answer_decision_eq (ho : o.identity.SameCustomer r) {name : String} {g : Gate}
    (hg : h.named? name = some g) :
    (h.view.decision name r o).answer =
      r.overrides.apply g.name (h.view.decision name r.withoutOverrides o).answer := by
  have hplain := answer_decision_of_some hl r.withoutOverrides o hg
  rw [scope_withoutOverrides r o ho, amend_withoutOverrides] at hplain
  rw [answer_decision_of_some hl r o hg, hplain,
    Overrides.amend_eq_apply _ _ (isMissing_verdict hl r o (mem_of_named? hg)),
    Overrides.apply_congr _ (fold_name_of_named? hg)]

theorem answer_listing_eq (ho : o.identity.SameCustomer r) {e : Evaluator}
    (hstore : e.store.snapshot = h) (hoptions : e.options = o) :
    (e.listing r).answer = ⟨(e.listing r.withoutOverrides).answer.version,
      (e.listing r.withoutOverrides).answer.gates.map (·.override r.overrides)⟩ := by
  have hplain := gates_listing hl r.withoutOverrides o hstore hoptions
  rw [scope_withoutOverrides r o ho] at hplain
  have hgates : (e.listing r).answer.gates =
      (e.listing r.withoutOverrides).answer.gates.map (·.override r.overrides) := by
    rw [gates_listing hl r o hstore hoptions, hplain, List.map_map]
    refine List.map_congr_left fun g hg => ?_
    rw [Function.comp_apply, amend_withoutOverrides,
      Overrides.amend_eq_apply _ _ (isMissing_verdict hl r o hg)]
    rfl
  rw [← hgates]
  rfl

end

/-- Overrides change what is reported about the gates they name, and only that.  The filters and
containers that gates depend on are decided as without overrides; a reported decision on a gate
that exists is overridden once, and names without a gate, entries, listed gates and events are the
same with and without overrides. -/
structure OverridesOnTop (h : Hierarchy) (r : Request) (o : Options) : Prop where
  filters : let s := (h.view.scope r o).answer
    let s' := (h.view.scope r.withoutOverrides o).answer
    ∀ g f, s.Passes s.Active g f ↔ s'.Passes s'.Active g f
  containers : let s := (h.view.scope r o).answer
    let s' := (h.view.scope r.withoutOverrides o).answer
    ∀ g, s.ContainerOn s.Active g ↔ s'.ContainerOn s'.Active g
  computed : h.view.decideAll r o = h.view.decideAll r.withoutOverrides o
  report : (h.view.report r o).answer =
    ⟨(h.view.report r.withoutOverrides o).answer.gates.map r.overrides.apply,
      (h.view.report r.withoutOverrides o).answer.flights⟩
  report_events : (h.view.report r o).events = (h.view.report r.withoutOverrides o).events
  reportOn : ∀ names, (h.view.reportOn names r o).answer =
    ⟨(h.view.reportOn names r.withoutOverrides o).answer.gates.map fun name d =>
        if d.isMissing then d else r.overrides.apply name d,
      (h.view.reportOn names r.withoutOverrides o).answer.flights⟩
  reportOn_missing : ∀ names,
    ∀ e ∈ (h.view.reportOn names r.withoutOverrides o).answer.gates.entries,
      (e.2.isMissing = true ↔ h.named? e.1 = none)
  reportOn_events : ∀ names,
    (h.view.reportOn names r o).events = (h.view.reportOn names r.withoutOverrides o).events
  decision : ∀ name g, h.named? name = some g → (h.view.decision name r o).answer =
    r.overrides.apply g.name (h.view.decision name r.withoutOverrides o).answer
  decision_missing : ∀ name, h.named? name = none →
    (h.view.decision name r o).answer = (h.view.decision name r.withoutOverrides o).answer
  decision_events : ∀ name,
    (h.view.decision name r o).events = (h.view.decision name r.withoutOverrides o).events
  listing : ∀ e : Evaluator, e.store.snapshot = h → e.options = o → (e.listing r).answer =
    ⟨(e.listing r.withoutOverrides).answer.version,
      (e.listing r.withoutOverrides).answer.gates.map (·.override r.overrides)⟩
  listing_events : ∀ e : Evaluator, e.store.snapshot = h → e.options = o →
    (e.listing r).events = (e.listing r.withoutOverrides).events

/-- Overrides lie on top where the customer is the same with and without them. -/
theorem overrides_on_top {h : Hierarchy} (hl : h.Loaded) (r : Request) {o : Options}
    (ho : o.identity.SameCustomer r) : h.OverridesOnTop r o := by
  have hscope : h.view.scope r.withoutOverrides o = h.view.scope r o :=
    scope_withoutOverrides r o ho
  have hdecideAll : h.view.decideAll r.withoutOverrides o = h.view.decideAll r o :=
    decideAll_withoutOverrides r o ho
  exact {
    filters := by
      rw [hscope]
      exact fun g f => Iff.rfl
    containers := by
      rw [hscope]
      exact fun g => Iff.rfl
    computed := hdecideAll.symm
    report := answer_report_eq hl r o ho
    report_events := by rw [events_report, events_report, hdecideAll]
    reportOn := answer_reportOn_eq hl r o ho
    reportOn_missing := by
      intro names e he
      rw [answer_reportOn_withoutOverrides r o ho] at he
      rw [isMissing_of_mem_addNamed hl r o he, Option.isNone_iff_eq_none]
    reportOn_events := by
      intro names
      rw [events_reportOn, events_reportOn, hscope]
    decision := fun name g hg => answer_decision_eq hl r o ho hg
    decision_missing := by
      intro name hg
      rw [answer_decision_of_none hl r o hg, answer_decision_of_none hl r.withoutOverrides o hg]
    decision_events := by
      intro name
      rw [View.decision, View.decision, hscope]
      cases h.view.named? name <;> rfl
    listing := fun e hstore hoptions => answer_listing_eq hl r o ho hstore hoptions
    listing_events := by
      intro e hstore hoptions
      show (e.view.decideAll r e.options).events =
        (e.view.decideAll r.withoutOverrides e.options).events
      rw [Evaluator.view, hstore, hoptions, hdecideAll] }

/-- A gate with another inside, a gate that asks for it, and a gate that asks for itself. -/
def fair : Document where
  gates := [
    ("Gate", { children := [("booth", { filters := [.condition (.rollout 100)] })] }),
    ("ring", { filters := [.parent "RING"] }),
    ("ride", { filters := [.parent "gate"] })]

theorem overrides_on_top_fair :
    let h : Hierarchy := { gates := fair.toGates }
    let o : Options := { identity := .chain [.customer, .anonymous] }
    let r : Request := { anonymous := some "ann",
                         overrides := { disabled := ["GATE"], toggled := ["Ride", "ghost"] } }
    let e : Evaluator := { store := ⟨.memory "", h⟩, identity := o.identity }
    h.Loaded ∧ o.identity.SameCustomer r ∧ e.options = o ∧
      (h.view.report r.withoutOverrides o).answer.gates.entries =
        [("Gate", .passed), ("booth", .passed), ("ride", .passed),
          ("ring", .filterFailed 0 .parent)] ∧
      (h.view.report r o).answer.gates.entries =
        [("Gate", .overridden false .disabled), ("booth", .passed),
          ("ride", .overridden false .toggled), ("ring", .filterFailed 0 .parent)] ∧
      (h.view.reportOn ["RIDE", "ghost"] r o).answer.gates.entries =
        [("ghost", .error .gateNotFound), ("ride", .overridden false .toggled)] ∧
      (h.view.decision "gate" r o).answer = .overridden false .disabled ∧
      (e.listing r).answer.gates.map (fun l => (l.path, l.active)) =
        [("Gate", false), ("ring", false), ("ride", false), ("Gate/booth", true)] ∧
      (h.view.report r o).events = [.cycle "ring"] := by
  intro h o r e
  have hl : h.Loaded := ⟨fair, rfl⟩
  have ho : o.identity.SameCustomer r := by
    refine Identity.SameCustomer.chain fun i hi => ?_
    rcases List.mem_pair.mp hi with rfl | rfl <;> rfl
  have htop := overrides_on_top hl r ho
  obtain ⟨g, hg, hname⟩ : ∃ g, h.named? "gate" = some g ∧ g.name = "Gate" := ⟨_, rfl, rfl⟩
  refine ⟨hl, ho, rfl, by decide +kernel, (congrArg (·.gates.entries) htop.report).trans ?_,
    (congrArg (·.gates.entries) (htop.reportOn ["RIDE", "ghost"])).trans ?_,
    (htop.decision "gate" g hg).trans ?_,
    (congrArg (·.gates.map fun l => (l.path, l.active)) (htop.listing e rfl rfl)).trans ?_,
    htop.report_events.trans ?_⟩
  · decide +kernel
  · decide +kernel
  · rw [hname]
    decide +kernel
  · decide +kernel
  · decide +kernel

/-- A gate that is rolled out, a gate that asks for it, and one that has nothing to do with them. -/
def stalls : Document where
  gates := [
    ("stall", { filters := [.condition (.rollout 50)] }),
    ("queue", { filters := [.parent "stall"] }),
    ("fair", {})]

/-- An identity that looks at the overrides, here by counting nobody who uses any as a customer, can
turn a gate off that they do not name, and gates that ask for it. -/
theorem not_overridesOnTop_stalls :
    let h : Hierarchy := { gates := stalls.toGates }
    let o : Options :=
      { identity := .source fun r => if r.overrides.isEmpty then r.customer else none }
    let r : Request := { customer := some "ann", overrides := { disabled := ["fair"] } }
    h.Loaded ∧
      (h.view.decision "stall" r.withoutOverrides o).answer = .passed ∧
      (h.view.decision "queue" r.withoutOverrides o).answer = .passed ∧
      (h.view.decision "stall" r o).answer = .filterFailed 0 .rollout ∧
      (h.view.decision "queue" r o).answer = .filterFailed 0 .parent ∧
      ¬h.OverridesOnTop r o := by
  intro h o r
  have hplain : (h.view.decision "stall" r.withoutOverrides o).answer = .passed := by
    decide +kernel
  have hover : (h.view.decision "stall" r o).answer = .filterFailed 0 .rollout := by
    decide +kernel
  refine ⟨⟨stalls, rfl⟩, hplain, by decide +kernel, hover, by decide +kernel, fun htop => ?_⟩
  obtain ⟨g, hg, hname⟩ : ∃ g, h.named? "stall" = some g ∧ g.name = "stall" := ⟨_, rfl, rfl⟩
  have hstall := htop.decision "stall" g hg
  rw [hplain, hover, hname] at hstall
  exact absurd hstall (by decide)

end Hierarchy
end FeatureGates
