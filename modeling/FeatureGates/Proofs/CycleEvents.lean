import FeatureGates.Proofs.Agreement
import FeatureGates.Proofs.Exploration

/-!
Every cycle is told of once.

Whether one gate is asked for, or several, or all of them, the recorder gets one event for each
cycle of demands that is reached from these gates, and no other event.
-/

namespace FeatureGates

open Relation (TransGen ReflTransGen)

/-- The events are one for each of the cycles, with the name of a gate on it. -/
def ReportsOnce (events : List Event) (cycles : Cycle Gate → Prop) : Prop :=
  ∃ told : List (Cycle Gate × Gate),
    events = told.map (fun t => .cycle t.2.name) ∧ (told.map (·.1)).Nodup ∧
      (∀ c, c ∈ told.map (·.1) ↔ cycles c) ∧ ∀ t ∈ told, t.2 ∈ t.1

namespace ReportsOnce

variable {events events' : List Event} {P Q : Cycle Gate → Prop}

theorem congr (h : ReportsOnce events P) (hPQ : ∀ c, P c ↔ Q c) : ReportsOnce events Q := by
  obtain ⟨told, hevents, hnodup, hmem, hon⟩ := h
  exact ⟨told, hevents, hnodup, fun c => (hmem c).trans (hPQ c), hon⟩

theorem nil (h : ∀ c, ¬P c) : ReportsOnce [] P :=
  ⟨[], rfl, List.nodup_nil, fun c => iff_of_false List.not_mem_nil (h c),
    fun _ ht => absurd ht List.not_mem_nil⟩

theorem append (h : ReportsOnce events P) (h' : ReportsOnce events' Q) (hPQ : ∀ c, P c → ¬Q c) :
    ReportsOnce (events ++ events') fun c => P c ∨ Q c := by
  obtain ⟨told, rfl, hnodup, hmem, hon⟩ := h
  obtain ⟨told', rfl, hnodup', hmem', hon'⟩ := h'
  refine ⟨told ++ told', (List.map_append).symm, ?_, fun c => ?_, fun t ht => ?_⟩
  · rw [List.map_append, List.nodup_append']
    exact ⟨hnodup, hnodup', fun c hc hc' => hPQ c ((hmem c).mp hc) ((hmem' c).mp hc')⟩
  · rw [List.map_append, List.mem_append, hmem, hmem']
  · exact (List.mem_append.mp ht).elim (hon t) (hon' t)

theorem eq_nil (h : ReportsOnce events P) (hP : ∀ c, ¬P c) : events = [] := by
  obtain ⟨told, rfl, -, hmem, -⟩ := h
  cases told with
  | nil => rfl
  | cons t rest => exact absurd ((hmem t.1).mp (by simp)) (hP t.1)

end ReportsOnce

namespace Resolver

variable {s : Scope} {h : Hierarchy} {g : Gate}

theorem Tells.reportsOnce (hp : s.view.PartOf h) {m : Marks} {events : List Event}
    (hc : Closed s h m) (he : Tells s m [g] events) :
    ReportsOnce events fun c =>
      s.DemandCycle c ∧ s.Reaches g c ∧ ∀ x ∈ c, ¬m.Decided x.id := by
  cases he with
  | nothing hnone =>
    refine ReportsOnce.nil ?_
    intro c hc
    obtain ⟨hcycle, ⟨x, hx, hgx⟩, hundecided⟩ := hc
    exact hundecided x hx
      (hnone g (List.mem_singleton_self g) x hgx (hcycle.transGen hx hx))
  | @cycle g' x hg' hgx hx hundecided =>
    rw [List.mem_singleton.mp hg'] at hgx
    obtain ⟨c, hcycle, hxc⟩ := Scope.exists_demandCycle hx
    refine ⟨[(c, x)], rfl, List.nodup_singleton c, fun c' => ?_, fun t ht => ?_⟩
    · rw [List.map_singleton, List.mem_singleton]
      constructor
      · intro hsame
        rw [hsame]
        refine ⟨hcycle, ⟨x, hxc, hgx⟩, fun y hy hdecided => hundecided ?_⟩
        have hyx := hcycle.transGen hy hxc
        exact hc.of_reach hp (mem_of_cycle hp (hcycle.transGen hy hy)) hdecided hyx.to_reflTransGen
      · intro hc'
        exact hc'.1.eq_of_reaches hcycle hc'.2.1 ⟨x, hxc, hgx⟩
    · rw [List.mem_singleton.mp ht]
      exact hxc

theorem Tells.length_le_one {m : Marks} {gs : List Gate} {events : List Event}
    (he : Tells s m gs events) : events.length ≤ 1 := by
  cases he with
  | nothing => exact Nat.zero_le 1
  | cycle => exact Nat.le_refl 1

theorem decide_closed (hn : h.Numbered) (hp : s.view.PartOf h) {m : Marks} (hm : Settled s h m)
    (hc : Closed s h m) (hg : g ∈ h.gates) : Closed s h (s.decide g m).answer.2 := by
  have hexplores := visit_explores hn hp (hm.ready hp hg)
  intro q hq hdecided p hqp
  exact Marks.decided_of_reached (hexplores.looked hc.looked q hq hdecided p hqp)
    ((decide_spec hn hp hg hm).2.idle p.id)

/-- Gates that are decided one after another tell of every cycle that is reached from them and was
not decided before. -/
theorem visitAll_decide_reportsOnce (hn : h.Numbered) (hp : s.view.PartOf h) {gs : List Gate}
    (hgs : ∀ g ∈ gs, g ∈ h.gates) {m : Marks} (hm : Settled s h m) (hc : Closed s h m) :
    ReportsOnce (visitAll s.decide gs m).events fun c =>
      s.DemandCycle c ∧ (∃ g ∈ gs, s.Reaches g c) ∧ ∀ x ∈ c, ¬m.Decided x.id := by
  induction gs generalizing m with
  | nil =>
    refine ReportsOnce.nil ?_
    intro c hc
    obtain ⟨-, ⟨g, hg, -⟩, -⟩ := hc
    cases hg
  | cons g rest ih =>
    have hg := hgs g List.mem_cons_self
    have hready := hm.ready hp hg
    have hexplores : Explores s h [g] m (s.decide g m).answer.2 := visit_explores hn hp hready
    have hc' := decide_closed hn hp hm hc hg
    have hm' := (decide_spec hn hp hg hm).2
    have hfirst := (visit_tells hn hp hready hc).reportsOnce hp hc
    have hlater := ih (fun q hq => hgs q (List.mem_cons_of_mem g hq)) hm' hc'
    rw [events_visitAll_cons]
    refine (hfirst.append hlater ?_).congr fun c => ⟨?_, ?_⟩
    · -- What `g` reaches is decided together with `g`.
      intro c hc hlater'
      obtain ⟨-, ⟨x, hx, hgx⟩, -⟩ := hc
      have hdecided := Marks.decided_of_reached
        (hexplores.reached g (List.mem_singleton_self g)) (hm'.idle g.id)
      exact hlater'.2.2 x hx (hc'.of_reach hp hg hdecided hgx)
    · intro heither
      rcases heither with ⟨hcycle, hreaches, hundecided⟩ | ⟨hcycle, ⟨q, hq, hreaches⟩, hundecided⟩
      · exact ⟨hcycle, ⟨g, List.mem_cons_self, hreaches⟩, hundecided⟩
      · exact ⟨hcycle, ⟨q, List.mem_cons_of_mem g hq, hreaches⟩, fun x hx hdecided =>
          hundecided x hx (hexplores.keeps.of_decided hdecided)⟩
    · intro hc
      obtain ⟨hcycle, ⟨q, hq, hreaches⟩, hundecided⟩ := hc
      by_cases hgc : s.Reaches g c
      · exact Or.inl ⟨hcycle, hgc, hundecided⟩
      · refine Or.inr ⟨hcycle, ?_, fun x hx hdecided => ?_⟩
        · rcases List.mem_cons.mp hq with rfl | hq
          · exact absurd hreaches hgc
          · exact ⟨q, hq, hreaches⟩
        · have hxmem := mem_of_cycle hp (hcycle.transGen hx hx)
          rcases hexplores.fresh x hxmem hdecided with hold | ⟨g', hg', hgx⟩
          · exact hundecided x hx hold
          · rw [List.mem_singleton.mp hg'] at hgx
            exact hgc ⟨x, hx, hgx⟩

theorem closed_nil (s : Scope) (h : Hierarchy) : Closed s h [] := by
  intro q _ hdecided
  exact absurd hdecided (Marks.not_decided_nil q.id)

theorem visitAll_decide_nil_reportsOnce (hn : h.Numbered) (hp : s.view.PartOf h) {gs : List Gate}
    (hgs : ∀ g ∈ gs, g ∈ h.gates) :
    ReportsOnce (visitAll s.decide gs []).events fun c =>
      s.DemandCycle c ∧ ∃ g ∈ gs, s.Reaches g c := by
  refine (visitAll_decide_reportsOnce hn hp hgs (settled_nil s h) (closed_nil s h)).congr fun c => ?_
  exact ⟨fun hc => ⟨hc.1, hc.2.1⟩,
    fun hc => ⟨hc.1, hc.2, fun x _ => Marks.not_decided_nil x.id⟩⟩

/-! ## The walks of the evaluations -/

theorem events_decideEach (gs : List Gate) (m : Marks) :
    (s.decideEach gs m).events = (visitAll s.decide gs m).events := by
  induction gs generalizing m with
  | nil => rfl
  | cons g rest ih =>
    rw [Scope.decideEach, Noted.events_bind, events_visitAll_cons, Noted.events_bind,
      Noted.events_pure, List.append_nil, ih]

theorem events_addNamed (names : List String) (m : Marks) (report : Report) :
    (s.addNamed names m report).events =
      (visitAll s.decide (names.filterMap s.view.named?) m).events := by
  induction names generalizing m report with
  | nil => rfl
  | cons name rest ih =>
    rw [Scope.addNamed]
    cases hg : s.view.named? name with
    | none => rw [List.filterMap_cons_none hg, ih]
    | some g =>
      rw [List.filterMap_cons_some hg, events_visitAll_cons, Noted.events_bind, ih]

end Resolver

theorem Request.events_firstForwarded (entries : List String) :
    (Request.firstForwarded entries).events = [] := by
  induction entries with
  | nil => rfl
  | cons entry rest ih =>
    rw [Request.firstForwarded]
    split
    · rfl
    · rw [Noted.events_bind, ih]
      rfl

namespace View

theorem events_scope (v : View) (r : Request) (o : Options) : (v.scope r o).events = [] := by
  rw [scope, Noted.events_map, Request.client]
  split
  · rw [Noted.events_map, Request.events_firstForwarded]
  · rfl

theorem events_decideAll (v : View) (r : Request) (o : Options) :
    (v.decideAll r o).events =
      (Resolver.visitAll (v.scope r o).answer.decide v.gates []).events := by
  rw [decideAll, Noted.events_bind, events_scope, List.nil_append, Resolver.events_decideEach]

end View

theorem Report.events_amend (v : View) (o : Overrides) (r : Report) : (r.amend v o).events = [] := by
  unfold amend
  split
  · rfl
  · simp [Noted.events, Notice.events, overrideNotices, List.filterMap_append, Notice.event?,
      Function.comp_def]

namespace Hierarchy

/-- What a gate refers to in the document, whether its decision depends on it or not: its container
and the gates that its parent filters name. -/
inductive Refers (h : Hierarchy) (g p : Gate) : Prop
  | container {id : Nat} (hid : g.container = some id) (hp : h.gate? id = some p)
  | parent {name : String} (hf : .parent name ∈ g.filters) (hp : h.named? name = some p)

theorem Refers.mem {h : Hierarchy} {g p : Gate} (hgp : h.Refers g p) : p ∈ h.gates := by
  cases hgp with
  | container _ hp => exact List.mem_of_getElem? hp
  | parent _ hp => exact mem_of_named? hp

/-- Where gates refer to gates before them only, no gate refers back to itself. -/
theorem not_refers_back {h : Hierarchy}
    (hdown : ∀ g ∈ h.gates, ∀ p, h.Refers g p → p.id < g.id) {g : Gate} (hg : g ∈ h.gates) :
    ¬TransGen h.Refers g g := by
  intro hback
  have hbelow : ∀ q, TransGen h.Refers g q → q ∈ h.gates ∧ q.id < g.id := by
    intro q hgq
    induction hgq with
    | single hgq => exact ⟨hgq.mem, hdown g hg _ hgq⟩
    | tail _ hqp ih => exact ⟨hqp.mem, Nat.lt_trans (hdown _ ih.1 _ hqp) ih.2⟩
  exact Nat.lt_irrefl g.id (hbelow g hback).2

section

variable {h : Hierarchy} (hl : h.Loaded) (r : Request) (o : Options)

theorem refers_of_demands {g p : Gate} (hgp : (h.view.scope r o).answer.Demands g p) :
    h.Refers g p := by
  cases hgp with
  | container hid hp => exact .container hid hp
  | parent _ hfilters _ hp =>
    refine .parent ?_ hp
    rw [hfilters]
    exact List.mem_append_right _ List.mem_cons_self

include hl

theorem report_reportsOnce :
    ReportsOnce (h.view.report r o).events (h.view.scope r o).answer.DemandCycle := by
  have hpart : (h.view.scope r o).answer.view.PartOf h := View.partOf_view h
  have hwalk := Resolver.visitAll_decide_nil_reportsOnce hl.numbered hpart (fun g hg => hg)
  have hevents : (h.view.report r o).events =
      (Resolver.visitAll (h.view.scope r o).answer.decide h.gates []).events := by
    rw [View.report, Noted.events_bind, Report.events_amend, List.append_nil, View.computed,
      Noted.events_map, View.events_decideAll, View.gates_view]
  rw [hevents]
  refine hwalk.congr fun c => and_iff_left_of_imp fun hcycle => ?_
  obtain ⟨x, hx⟩ := hcycle.exists_mem
  exact ⟨x, Resolver.mem_of_cycle hpart (hcycle.transGen hx hx), x, hx, ReflTransGen.refl⟩

theorem reportOn_reportsOnce (names : List String) :
    ReportsOnce (h.view.reportOn names r o).events fun c =>
      (h.view.scope r o).answer.DemandCycle c ∧ ∃ name ∈ names, ∃ g,
        h.named? name = some g ∧ (h.view.scope r o).answer.Reaches g c := by
  have hmem : ∀ g ∈ names.filterMap h.named?, g ∈ h.gates := by
    intro g hg
    obtain ⟨name, -, hname⟩ := List.mem_filterMap.mp hg
    exact mem_of_named? hname
  have hwalk := Resolver.visitAll_decide_nil_reportsOnce
    (s := (h.view.scope r o).answer) hl.numbered (View.partOf_view h) hmem
  have hevents : (h.view.reportOn names r o).events =
      (Resolver.visitAll (h.view.scope r o).answer.decide
        (names.filterMap h.named?) []).events := by
    rw [View.reportOn, Noted.events_bind, View.events_scope, List.nil_append, Noted.events_bind,
      Report.events_amend, List.append_nil, Resolver.events_addNamed]
    rfl
  rw [hevents]
  refine hwalk.congr fun c => and_congr_right fun _ => ⟨?_, ?_⟩
  · intro hc
    obtain ⟨g, hg, hreaches⟩ := hc
    obtain ⟨name, hname, hfound⟩ := List.mem_filterMap.mp hg
    exact ⟨name, hname, g, hfound, hreaches⟩
  · intro hc
    obtain ⟨name, hname, g, hfound, hreaches⟩ := hc
    exact ⟨g, List.mem_filterMap.mpr ⟨name, hname, hfound⟩, hreaches⟩

theorem decision_reportsOnce (name : String) :
    (h.view.decision name r o).events.length ≤ 1 ∧
      ReportsOnce (h.view.decision name r o).events fun c =>
        (h.view.scope r o).answer.DemandCycle c ∧ ∃ g,
          h.named? name = some g ∧ (h.view.scope r o).answer.Reaches g c := by
  have hpart : (h.view.scope r o).answer.view.PartOf h := View.partOf_view h
  rw [View.decision, Noted.events_bind, View.events_scope, List.nil_append]
  have hview : h.view.named? name = h.named? name := rfl
  cases hg : h.named? name with
  | none =>
    rw [hview, hg]
    refine ⟨Nat.zero_le 1, ReportsOnce.nil ?_⟩
    intro c hc
    obtain ⟨-, g, hfound, -⟩ := hc
    cases hfound
  | some g =>
    have hmem := mem_of_named? hg
    have htells := Resolver.visit_tells hl.numbered hpart
      ((Resolver.settled_nil _ h).ready hpart hmem) (Resolver.closed_nil _ h)
    have halone : ∀ q ∈ [g], q ∈ h.gates := by
      intro q hq
      rw [List.mem_singleton.mp hq]
      exact hmem
    have hwalk := Resolver.visitAll_decide_nil_reportsOnce hl.numbered hpart halone
    rw [Resolver.events_visitAll_singleton] at hwalk
    rw [hview, hg]
    simp only [Noted.events_bind, Noted.events_pure, List.append_nil]
    refine ⟨?_, hwalk.congr fun c => and_congr_right fun _ => ?_⟩
    · exact htells.length_le_one
    · simp

omit hl in
theorem not_demandCycle (hacyclic : ∀ g ∈ h.gates, ¬TransGen h.Refers g g) (c : Cycle Gate) :
    ¬(h.view.scope r o).answer.DemandCycle c := by
  intro hcycle
  obtain ⟨x, hx⟩ := hcycle.exists_mem
  have hback := hcycle.transGen hx hx
  exact hacyclic x (Resolver.mem_of_cycle (View.partOf_view h) hback)
    (TransGen.mono (fun _ _ => refers_of_demands r o) x x hback)

end

/-- The gates on a cycle of demands are off, and no gate is on two cycles.  A report on all gates
tells of each cycle once, a report on named gates of each cycle that is reached from one of them,
and the decision on one gate of the cycle that is reached from it, if there is one.  Where no gate
refers back to itself, nothing is told, however many gates refer to the same. -/
theorem cycles_reported_once {h : Hierarchy} (hl : h.Loaded) (r : Request) (o : Options) :
    let s := (h.view.scope r o).answer
    (∀ c, s.DemandCycle c → ∀ g ∈ c, ¬s.Active g) ∧
    (∀ c c', s.DemandCycle c → s.DemandCycle c' → c ≠ c' → ∀ g ∈ c, g ∉ c') ∧
    ReportsOnce (h.view.report r o).events s.DemandCycle ∧
    (∀ names, ReportsOnce (h.view.reportOn names r o).events fun c =>
      s.DemandCycle c ∧ ∃ name ∈ names, ∃ g, h.named? name = some g ∧ s.Reaches g c) ∧
    (∀ name, (h.view.decision name r o).events.length ≤ 1 ∧
      ReportsOnce (h.view.decision name r o).events fun c =>
        s.DemandCycle c ∧ ∃ g, h.named? name = some g ∧ s.Reaches g c) ∧
    ((∀ g ∈ h.gates, ¬TransGen h.Refers g g) →
      (h.view.report r o).events = [] ∧ (∀ names, (h.view.reportOn names r o).events = []) ∧
        ∀ name, (h.view.decision name r o).events = []) := by
  intro s
  refine ⟨fun c hc g hg => hc.not_active hg,
    fun c c' hc hc' hne g hg hg' => hne (hc.eq_of_mem hc' hg hg'), report_reportsOnce hl r o,
    reportOn_reportsOnce hl r o, decision_reportsOnce hl r o, fun hacyclic => ?_⟩
  have hnone := not_demandCycle r o hacyclic
  exact ⟨(report_reportsOnce hl r o).eq_nil hnone,
    fun names => (reportOn_reportsOnce hl r o names).eq_nil fun c hc => hnone c hc.1,
    fun name => (decision_reportsOnce hl r o name).2.eq_nil fun c hc => hnone c hc.1⟩

/-- A ring of two gates, a gate that asks for itself, and gates that lead into the ring. -/
def rings : Document where
  gates := [
    ("east", { filters := [.parent "west"] }),
    ("west", { filters := [.condition (.environment []), .parent "EAST"] }),
    ("echo", { filters := [.parent "Echo"] }),
    ("base", {}),
    ("tour", { filters := [.parent "base", .parent "west"],
               children := [("stop", {}), ("walk", { filters := [.parent "base"] })] })]

/-- Two gates that ask for the same gate, and a gate that asks for both. -/
def diamond : Document where
  gates := [
    ("base", {}),
    ("left", { filters := [.parent "base"] }),
    ("right", { filters := [.parent "Base"] }),
    ("tip", { filters := [.parent "left", .parent "right"] })]

theorem cycles_reported_once_rings :
    let h : Hierarchy := { gates := rings.toGates }
    let s := (h.view.scope {} {}).answer
    let calm : Hierarchy := { gates := diamond.toGates }
    h.Loaded ∧ calm.Loaded ∧
      (h.view.report {} {}).events = [.cycle "east", .cycle "echo"] ∧
      (h.view.reportOn ["walk", "ECHO", "nobody", "stop"] {} {}).events =
        [.cycle "west", .cycle "echo"] ∧
      (h.view.decision "stop" {} {}).events = [.cycle "west"] ∧
      (h.view.decision "base" {} {}).events = [] ∧
      (∃ c c', s.DemandCycle c ∧ s.DemandCycle c' ∧ c ≠ c' ∧ (∃ g ∈ c, g.name = "east") ∧
        ∃ g ∈ c', g.name = "echo") ∧
      (∀ g ∈ calm.gates, ¬TransGen calm.Refers g g) ∧ (calm.view.report {} {}).events = [] := by
  intro h s calm
  have hl : h.Loaded := ⟨rings, rfl⟩
  have hl' : calm.Loaded := ⟨diamond, rfl⟩
  obtain ⟨-, -, hall, -, -, -⟩ := cycles_reported_once hl {} {}
  obtain ⟨-, -, -, -, -, hcalm⟩ := cycles_reported_once hl' {} {}
  have hevents : (h.view.report {} {}).events = [.cycle "east", .cycle "echo"] := by
    decide +kernel
  have hacyclic : ∀ g ∈ calm.gates, ¬TransGen calm.Refers g g := by
    have hdown : ∀ g ∈ calm.gates, g.container = none ∧ ∀ f ∈ g.filters,
        ∀ p ∈ ((calm.view.scope {} {}).answer.asked f).toList, p.id < g.id := by decide +kernel
    refine fun g => not_refers_back fun g hg p hgp => ?_
    cases hgp with
    | container hid _ =>
      rw [(hdown g hg).1] at hid
      cases hid
    | parent hf hp => exact (hdown g hg).2 _ hf p (Option.mem_toList.mpr hp)
  refine ⟨hl, hl', hevents, by decide +kernel, by decide +kernel, by decide +kernel, ?_, hacyclic,
    (hcalm hacyclic).1⟩
  obtain ⟨told, htold, hnodup, hmem, hon⟩ := hall
  rw [hevents] at htold
  obtain ⟨t, t', rfl⟩ : ∃ t t', told = [t, t'] :=
    List.length_eq_two.mp (by simpa using (congrArg List.length htold).symm)
  simp only [List.map_cons, List.map_nil, List.cons.injEq, Event.cycle.injEq, and_true] at htold
  simp only [List.map_cons, List.map_nil, List.nodup_cons, List.mem_singleton] at hnodup
  exact ⟨t.1, t'.1, (hmem t.1).mp (by simp), (hmem t'.1).mp (by simp), hnodup.1,
    ⟨t.2, hon t (by simp), htold.1.symm⟩, t'.2, hon t' (by simp), htold.2.symm⟩

end Hierarchy
end FeatureGates
