import FeatureGates.Proofs.Arena
import FeatureGates.Proofs.IndexedRuns
import FeatureGates.Proofs.Resolution

/-!
The ways to ask.  A gate may be asked for by name, with other gates, with all gates in a report, or
at its place in a listing.  Each way walks through the gates in its own order and under its own
spellings, and all of them give the same decision.
-/

namespace FeatureGates

namespace Scope

/-- The name of the gate that a name finds, or else the name itself. -/
def spelling (s : Scope) (name : String) : String :=
  ((s.view.named? name).map (·.name)).getD name

/-- The verdict on the gate that a name finds, if it finds one. -/
noncomputable def verdictOn (s : Scope) (name : String) : Decision :=
  ((s.view.named? name).map s.verdict).getD (Decision.error .gateNotFound)

variable {s : Scope} {h : Hierarchy}

/-- Gates that were asked for before have no influence on what is told of the next. -/
theorem answer_addNamed (hn : h.Numbered) (hp : s.view.PartOf h) (names : List String) {m : Marks}
    (hm : Resolver.Settled s h m) (report : Report) :
    (s.addNamed names m report).answer =
      report.addAll (names.map fun name => (s.spelling name, s.verdictOn name)) := by
  -- The marks are settled again after each name, so every gate is decided as if it came first.
  induction names generalizing m report with
  | nil => rfl
  | cons name rest ih =>
    rw [addNamed, List.map_cons, spelling, verdictOn]
    cases hg : s.view.named? name with
    | none => exact ih hm (report.add name (Decision.error .gateNotFound))
    | some g =>
      obtain ⟨hverdict, hsettled⟩ := Resolver.decide_spec hn hp (hp.mem_of_named? hg) hm
      have hrest := ih hsettled (report.add g.name (s.decide g m).answer.1)
      rw [hverdict] at hrest
      show (s.addNamed rest (s.decide g m).answer.2
        (report.add g.name (s.decide g m).answer.1)).answer = _
      rw [hverdict]
      exact hrest

end Scope

namespace Hierarchy

section

variable {h : Hierarchy} (hl : h.Loaded) (r : Request) (o : Options)

theorem fold_spelling (name : String) :
    Text.fold ((h.view.scope r o).answer.spelling name) = Text.fold name := by
  show Text.fold (((h.named? name).map (·.name)).getD name) = _
  cases hg : h.named? name with
  | none => rfl
  | some g => exact fold_name_of_named? hg

theorem verdictOn_congr {a b : String} (hab : Text.fold a = Text.fold b) :
    (h.view.scope r o).answer.verdictOn a = (h.view.scope r o).answer.verdictOn b := by
  show ((h.named? a).map _).getD _ = ((h.named? b).map _).getD _
  rw [named?_congr hab]

include hl

theorem answer_decision (name : String) :
    (h.view.decision name r o).answer =
      r.overrides.amend name ((h.view.scope r o).answer.verdictOn name) := by
  have hview : (h.view.scope r o).answer.view = h.view := rfl
  rw [View.decision, Scope.verdictOn, hview]
  cases hg : h.view.named? name with
  | none => exact (r.overrides.amend_gateNotFound name).symm
  | some g =>
    have hverdict := (Resolver.decide_spec hl.numbered (View.partOf_view h) (mem_of_named? hg)
      (Resolver.settled_nil (h.view.scope r o).answer h)).1
    exact congrArg (r.overrides.amend name) hverdict

theorem answer_decision_of_some {name : String} {g : Gate} (hg : h.named? name = some g) :
    (h.view.decision name r o).answer =
      r.overrides.amend name ((h.view.scope r o).answer.verdict g) := by
  rw [answer_decision hl]
  show r.overrides.amend name (((h.named? name).map _).getD _) = _
  rw [hg]
  rfl

theorem answer_decision_of_none {name : String} (hg : h.named? name = none) :
    (h.view.decision name r o).answer = Decision.error .gateNotFound := by
  rw [answer_decision hl]
  show r.overrides.amend name (((h.named? name).map _).getD _) = _
  rw [hg]
  exact r.overrides.amend_gateNotFound name

theorem answer_decideAll :
    (h.view.decideAll r o).answer =
      h.gates.map fun g => (g, (h.view.scope r o).answer.verdict g) := by
  show ((h.view.scope r o).answer.decideEach h.view.gates []).answer = _
  rw [View.gates_view]
  exact Resolver.decideEach_spec hl.numbered (View.partOf_view h) (fun g hg => hg)
    (Resolver.settled_nil _ h)

theorem isMissing_verdict {g : Gate} (hg : g ∈ h.gates) :
    ((h.view.scope r o).answer.verdict g).isMissing = false := by
  have hfilters : ∀ s : Scope, (s.filterVerdict g).isMissing = false := by
    intro s
    rw [Scope.filterVerdict]
    split <;> rfl
  rw [Scope.verdict]
  split
  · exact hfilters _
  · rename_i id hid
    obtain ⟨c, hc⟩ := hl.exists_container hg hid
    have hfound : (h.view.scope r o).answer.view.gate? id = some c := hc
    rw [hfound]
    dsimp only
    split
    · exact hfilters _
    · rfl

theorem answer_computed :
    (h.view.computed r o).answer = Report.empty.addAll
      (h.gates.map fun g => (g.name, (h.view.scope r o).answer.verdict g)) := by
  show (h.view.decideAll r o).answer.foldl _ Report.empty = _
  rw [answer_decideAll hl, Report.addAll, List.foldl_map, List.foldl_map]

/-- Before overrides there is one entry under the name of any gate, with the verdict on the gate
that lookup by name finds, in its spelling. -/
theorem entriesUnder_computed (name : String) :
    (h.view.computed r o).answer.entriesUnder name =
      ((h.named? name).map fun g => (g.name, (h.view.scope r o).answer.verdict g)).toList := by
  rw [answer_computed hl, Report.entriesUnder_addAll_empty, List.find?_map, named?_eq_find?]
  rfl

/-- The report on all gates has one entry under the name of any gate, in the spelling of the gate
that lookup by name finds. -/
theorem entriesUnder_report (name : String) :
    (h.view.report r o).answer.entriesUnder name =
      ((h.named? name).map fun g => (g.name, (h.view.decision name r o).answer)).toList := by
  show ((h.view.computed r o).answer.amend h.view r.overrides).answer.entriesUnder name = _
  rw [Report.entriesUnder_amend, entriesUnder_computed hl]
  cases hg : h.named? name with
  | none => rfl
  | some g =>
    rw [answer_decision_of_some hl r o hg]
    rfl

/-- The report on named gates has one entry under each name it was asked for.  A name without a
gate is spelled as where it was first asked for. -/
theorem entriesUnder_reportOn (names : List String) (name : String) :
    (h.view.reportOn names r o).answer.entriesUnder name =
      ((names.find? fun asked => Text.fold asked = Text.fold name).map fun asked =>
        (((h.named? name).map (·.name)).getD asked,
          (h.view.decision name r o).answer)).toList := by
  show ((((h.view.scope r o).answer.addNamed names [] .empty).answer).amend h.view
    r.overrides).answer.entriesUnder name = _
  rw [Report.entriesUnder_amend, Scope.answer_addNamed hl.numbered (View.partOf_view h) names
    (Resolver.settled_nil _ h), Report.entriesUnder_addAll_empty, List.find?_map]
  simp only [Function.comp_def, fold_spelling]
  cases hasked : names.find? fun asked => Text.fold asked = Text.fold name with
  | none => rfl
  | some asked =>
    have hsame : Text.fold asked = Text.fold name := by simpa using List.find?_some hasked
    show [(((h.named? asked).map (·.name)).getD asked,
      r.overrides.amend name ((h.view.scope r o).answer.verdictOn asked))] = [_]
    rw [verdictOn_congr r o hsame, named?_congr hsame, ← answer_decision hl]

theorem get?_report (name : String) :
    (h.view.report r o).answer.get? name =
      (h.named? name).map fun _ => (h.view.decision name r o).answer := by
  rw [Report.get?_eq_head?, entriesUnder_report hl, Option.head?_toList, Option.map_map]
  rfl

theorem get?_reportOn (names : List String) (name : String) :
    (h.view.reportOn names r o).answer.get? name =
      if ∃ asked ∈ names, Text.fold asked = Text.fold name then
        some (h.view.decision name r o).answer
      else none := by
  rw [Report.get?_eq_head?, entriesUnder_reportOn hl, Option.head?_toList, Option.map_map]
  cases hasked : names.find? fun asked => Text.fold asked = Text.fold name with
  | none =>
    rw [if_neg]
    · rfl
    · rintro ⟨asked, hmem, hsame⟩
      exact List.find?_eq_none.mp hasked asked hmem (by simpa using hsame)
  | some asked =>
    rw [if_pos ⟨asked, List.mem_of_find?_eq_some hasked, by simpa using List.find?_some hasked⟩]
    rfl

/-- A listing shows all gates, shadowed by another of their name or not. -/
theorem gates_listing {e : Evaluator} (hstore : e.store.snapshot = h) (hoptions : e.options = o) :
    (e.listing r).answer.gates = h.gates.map fun g => ListedGate.of g
      (r.overrides.amend g.name ((h.view.scope r o).answer.verdict g)) := by
  show ((e.view.decideAll r e.options).answer.map _).map _ = _
  rw [Evaluator.view, hstore, hoptions, answer_decideAll hl, List.map_map, List.map_map]
  rfl

theorem getElem?_listing {name : String} {g : Gate} (hg : h.named? name = some g) {e : Evaluator}
    (hstore : e.store.snapshot = h) (hoptions : e.options = o) :
    (e.listing r).answer.gates[g.id]? = some
      { name := g.name, path := g.path, group := g.group,
        active := (h.view.decision name r o).answer.active,
        reason := (h.view.decision name r o).answer.reason } := by
  have hplace : h.gates[g.id]? = some g := hl.numbered.gate?_id (mem_of_named? hg)
  rw [gates_listing hl r o hstore hoptions, List.getElem?_map, hplace, Option.map_some,
    r.overrides.amend_congr (fold_name_of_named? hg), answer_decision_of_some hl r o hg]
  rfl

end

/-- All ways to ask agree.  A gate that a name finds has one decision, under whatever spelling it is
asked for: alone, in the report on all gates, in a report on named gates that include it, and in
the listing, where it stands at the gate's place with the gate's own name, path and group.  A name
without a gate has the decision that there is none, and no entry in the report on all gates.  Each
report has one entry under a name, with the gate's spelling or, without a gate, the one that was
asked for first.  A report that is made with an index finds the same decisions by it. -/
theorem decisions_agree {h : Hierarchy} (hl : h.Loaded) (r : Request) (o : Options) :
    let decision := fun name => (h.view.decision name r o).answer
    let report := (h.view.report r o).answer
    let reportOn := fun names => (h.view.reportOn names r o).answer
    (∀ name g, h.named? name = some g →
      report.get? name = some (decision name) ∧
      (∀ e : Evaluator, e.store.snapshot = h → e.options = o →
        (e.listing r).answer.gates[g.id]? = some
          { name := g.name, path := g.path, group := g.group,
            active := (decision name).active, reason := (decision name).reason }) ∧
      ∀ names, (reportOn names).get? name =
        if ∃ asked ∈ names, Text.fold asked = Text.fold name then some (decision name)
        else none) ∧
    (∀ name, h.named? name = none →
      decision name = Decision.error .gateNotFound ∧
      report.get? name = none ∧
      ∀ names, (reportOn names).get? name =
        if ∃ asked ∈ names, Text.fold asked = Text.fold name then
          some (Decision.error .gateNotFound)
        else none) ∧
    (∀ name, report.entriesUnder name =
      ((h.named? name).map fun g => (g.name, decision name)).toList) ∧
    (∀ names name, (reportOn names).entriesUnder name =
      ((names.find? fun asked => Text.fold asked = Text.fold name).map fun asked =>
        (((h.named? name).map (·.name)).getD asked, decision name)).toList) ∧
    (∀ name, (h.view.reportIndexed r o).answer.get? name = report.get? name) ∧
    ∀ names name, (h.view.reportOnIndexed names r o).answer.get? name =
      (reportOn names).get? name := by
  intro decision report reportOn
  refine ⟨fun name g hg => ⟨?_, ?_, ?_⟩, fun name hg => ⟨?_, ?_, ?_⟩, ?_, ?_, fun name => ?_,
    fun names name => ?_⟩
  · show (h.view.report r o).answer.get? name = _
    rw [get?_report hl, hg]
    rfl
  · intro e hstore hoptions
    exact getElem?_listing hl r o hg hstore hoptions
  · intro names
    exact get?_reportOn hl r o names name
  · exact answer_decision_of_none hl r o hg
  · show (h.view.report r o).answer.get? name = _
    rw [get?_report hl, hg]
    rfl
  · intro names
    rw [← answer_decision_of_none hl r o hg]
    exact get?_reportOn hl r o names name
  · exact entriesUnder_report hl r o
  · exact entriesUnder_reportOn hl r o
  · rw [IndexedReport.get?_eq, View.report_reportIndexed]
  · rw [IndexedReport.get?_eq, View.report_reportOnIndexed]

/-- Two gates of one name, and two gates that wait for each other. -/
def homes : Document where
  gates := [
    ("Home", { group := some "plot",
               children := [("home", { filters := [.parent "lab"] }),
                            ("Lab", { filters := [.parent "HOME", .parent "porch"] }),
                            ("Porch", { filters := [.parent "lab"] })] }),
    ("yard", { filters := [.parent "home"] })]

theorem decisions_agree_homes :
    let h : Hierarchy := { gates := homes.toGates }
    let r : Request := { overrides := { disabled := ["LAB"], toggled := ["home"] } }
    let e : Evaluator := { store := ⟨.memory "", h⟩ }
    let off : Decision := .overridden false .toggled
    let asked := (h.view.reportOn ["GHOST", "hOME", "ghost"] r {}).answer
    h.Loaded ∧ (h.named? "HOME").map (·.id) = some 0 ∧ (h.named? "lab").map (·.id) = some 3 ∧
      h.named? "ghost" = none ∧ e.store.snapshot = h ∧ e.options = {} ∧
      (h.view.report r {}).answer.get? "HOME" = some off ∧
      (e.listing r).answer.gates[0]? =
        some ⟨"Home", "Home", some "plot", false, .overridden .toggled⟩ ∧
      (e.listing r).answer.gates[3]? =
        some ⟨"Lab", "Home/Lab", none, false, .overridden .disabled⟩ ∧
      asked.get? "HOME" = some off ∧
      asked.get? "Ghost" = some (.error .gateNotFound) ∧
      (h.view.report r {}).answer.entriesUnder "HOME" = [("Home", off)] ∧
      asked.entriesUnder "ghost" = [("GHOST", .error .gateNotFound)] ∧
      (h.view.reportIndexed r {}).answer.get? "HOME" = some off := by
  intro h r e off asked
  have hl : h.Loaded := ⟨homes, rfl⟩
  obtain ⟨hfound, hmissing, hreport, hreportOn, hindexed, -⟩ := decisions_agree hl r {}
  obtain ⟨g, hg, hid⟩ : ∃ g, h.named? "HOME" = some g ∧ g.id = 0 := ⟨_, rfl, rfl⟩
  obtain ⟨lab, hlab, hlabId⟩ : ∃ g, h.named? "lab" = some g ∧ g.id = 3 := ⟨_, rfl, rfl⟩
  obtain ⟨hall, hlisting, hsome⟩ := hfound "HOME" g hg
  have hplace := hlisting e rfl rfl
  rw [hid] at hplace
  have hlabPlace := (hfound "lab" lab hlab).2.1 e rfl rfl
  rw [hlabId] at hlabPlace
  refine ⟨hl, rfl, rfl, rfl, rfl, rfl, hall, hplace.trans ?_, hlabPlace.trans ?_,
    hsome ["GHOST", "hOME", "ghost"], (hmissing "Ghost" rfl).2.2 ["GHOST", "hOME", "ghost"],
    hreport "HOME", hreportOn ["GHOST", "hOME", "ghost"] "ghost", (hindexed "HOME").trans hall⟩
  · cases hg
    rfl
  · cases hlab
    rfl

end Hierarchy
end FeatureGates
