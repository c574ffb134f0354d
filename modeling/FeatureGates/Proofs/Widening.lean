import FeatureGates.Proofs.Counterparts

/-!
Rolling out further.

Two documents may differ in how far their rollouts go and in nothing else.  A wider rollout lets
parent filters pass and containers be on that were not, so gates are decided that were not looked
at before, and cycles are met that were not reached.  Still no gate that is on is turned off by it,
as long as no override flips decisions.
-/

namespace FeatureGates

/-- Siblings of the same shape, in which rollouts may go further. -/
inductive Widened : List (String × Definition) → List (String × Definition) → Prop
  | nil : Widened [] []
  | cons (name : String) (group : Option String) {filters filters' : List Filter}
      {children children' rest rest' : List (String × Definition)}
      (hfilters : List.Forall₂ Filter.Wider filters filters') (hchildren : Widened children children')
      (hrest : Widened rest rest') :
      Widened ((name, ⟨group, filters, children⟩) :: rest)
        ((name, ⟨group, filters', children'⟩) :: rest')

theorem Widened.forall₂_sites {l l' : List (String × Definition)} (hw : Widened l l')
    (around : List String) :
    List.Forall₂ (Site.Resembles Filter.Wider) (Definition.sitesBelow around l)
      (Definition.sitesBelow around l') := by
  induction hw generalizing around with
  | nil => exact .nil
  | cons name group hfilters hchildren hrest ihchildren ihrest =>
    rw [Definition.sitesBelow_cons, Definition.sitesBelow_cons]
    exact .cons ⟨rfl, rfl, rfl, hfilters⟩
      (List.rel_append (ihchildren (around ++ [name])) (ihrest around))

theorem Overrides.apply_mono {o : Overrides} (ho : o.toggled = []) {gate : String} {d d' : Decision}
    (hle : d.active = true → d'.active = true) (hd : (o.apply gate d).active = true) :
    (o.apply gate d').active = true := by
  have hflip : Text.listsName o.toggled gate = false := by
    rw [ho]
    rfl
  unfold apply at hd ⊢
  rw [hflip] at hd ⊢
  by_cases hoff : Text.listsName o.disabled gate = true
  · rw [if_pos hoff] at hd
    cases hd
  · rw [if_neg hoff] at hd ⊢
    by_cases hon : Text.listsName o.enabled gate = true
    · rw [if_pos hon]
      rfl
    · rw [if_neg hon] at hd ⊢
      exact hle hd

section

variable {h h' : Hierarchy} {d d' : Document} (hd : h.gates = d.toGates) (hd' : h'.gates = d'.toGates)
  (hvalid : d.Valid) (hvalid' : d'.Valid) (hw : Widened d.gates d'.gates)
include hd hd' hw

theorem Widened.forall₂_gates : List.Forall₂ (Gate.Resembles Filter.Wider) h.gates
    (h'.gates.filter fun g => !Text.listsName [] g.name) := by
  have hall : d'.sites.filter (fun x => !Text.listsName [] x.name) = d'.sites :=
    List.filter_eq_self.mpr fun _ _ => rfl
  exact FeatureGates.forall₂_gates hd hd' (hall.symm ▸ hw.forall₂_sites [])

include hvalid hvalid'

/-- Whatever a gate is asked for by, its decision stays on. -/
theorem Widened.amend_active (r : Request) (o : Options) (hr : r.overrides.toggled = []) {g g' : Gate}
    (halike : h.Alike Filter.Wider h' g g') (name : String)
    (hg : (r.overrides.amend name ((h.view.scope r o).answer.verdict g)).active = true) :
    (r.overrides.amend name ((h'.view.scope r o).answer.verdict g')).active = true := by
  have hl := Hierarchy.Loaded.of_valid hd hvalid
  have hl' := Hierarchy.Loaded.of_valid hd' hvalid'
  have hc := counterparts_of_forall₂ (hw.forall₂_gates hd hd') hd hd' hvalid' fun _ _ _ _ => rfl
  rw [Overrides.amend_eq_apply _ _ (Hierarchy.isMissing_verdict hl r o halike.1)] at hg
  rw [Overrides.amend_eq_apply _ _ (Hierarchy.isMissing_verdict hl' r o halike.2.1)]
  refine Overrides.apply_mono hr (fun hactive => ?_) hg
  rw [Scope.verdict_active_iff] at hactive ⊢
  exact hc.active r o hl hl' (fun _ _ hff => hff) halike hactive

end

namespace Hierarchy

/-- If rollouts go further and all else is the same, the gates that are on stay on: at their place
in the listing and under their name in the report. -/
theorem active_of_widened {d d' : Document} {h h' : Hierarchy}
    (hd : (ofDocument d).answer = .ok h) (hd' : (ofDocument d').answer = .ok h')
    (hw : Widened d.gates d'.gates) {e e' : Evaluator} (he : e.store.snapshot.gates = h.gates)
    (he' : e'.store.snapshot.gates = h'.gates) (ho : e'.options = e.options) {r : Request}
    (hr : r.overrides.toggled = []) :
    (∀ (i : Nat) (l : ListedGate), (e.listing r).answer.gates[i]? = some l → l.active = true →
      ∃ l', (e'.listing r).answer.gates[i]? = some l' ∧ l'.path = l.path ∧ l'.active = true) ∧
    ∀ (name : String) (decision : Decision), (e.report r).answer.get? name = some decision →
      decision.active = true →
      ∃ decision', (e'.report r).answer.get? name = some decision' ∧ decision'.active = true := by
  have hvalid : d.Valid := (exists_ok_iff d).mp ⟨h, hd⟩
  have hvalid' : d'.Valid := (exists_ok_iff d').mp ⟨h', hd'⟩
  rw [gates_of_ofDocument hd] at he
  rw [gates_of_ofDocument hd'] at he'
  have hl := Loaded.of_valid he hvalid
  have hl' := Loaded.of_valid he' hvalid'
  have hgates := hw.forall₂_gates he he'
  refine ⟨fun i l hlisted hactive => ?_, fun name decision hdecision hactive => ?_⟩
  · rw [gates_listing hl r e.options rfl rfl, List.getElem?_map, Option.map_eq_some_iff] at hlisted
    obtain ⟨g, hg, rfl⟩ := hlisted
    have hall : e'.store.snapshot.gates.filter (fun g => !Text.listsName [] g.name) =
        e'.store.snapshot.gates := List.filter_eq_self.mpr fun _ _ => rfl
    obtain ⟨g', hg', halike⟩ := exists_of_rel (rel_getElem? (forall₂_alike hgates) i) hg
    rw [hall] at hg'
    have hon := hw.amend_active he he' hvalid hvalid' r e.options hr halike g.name hactive
    have hlisted' := congrArg (·[i]?) (gates_listing hl' r e.options rfl ho)
    simp only [List.getElem?_map, hg', Option.map_some, ← halike.2.2.name] at hlisted'
    exact ⟨_, hlisted', halike.2.2.path.symm, hon⟩
  · have hreport : (e.store.snapshot.view.report r e.options).answer.get? name = some decision :=
      hdecision
    rw [get?_report hl, Option.map_eq_some_iff] at hreport
    obtain ⟨g, hg, rfl⟩ := hreport
    obtain ⟨g', hg', halike⟩ := exists_of_rel (rel_named? hgates rfl) hg
    rw [answer_decision_of_some hl r e.options hg] at hactive
    refine ⟨(e'.store.snapshot.view.decision name r e.options).answer, ?_, ?_⟩
    · show (e'.store.snapshot.view.report r e'.options).answer.get? name = _
      rw [ho, get?_report hl', hg', Option.map_some]
    · rw [answer_decision_of_some hl' r e.options hg']
      exact hw.amend_active he he' hvalid hvalid' r e.options hr halike name hactive

/-- Two gates that wait for each other once a third is on. -/
def lanes (exposure : Nat) : Document where
  gates := [
    ("search", { filters := [.condition (.rollout exposure)],
                 children := [("fast", { filters := [.parent "Search"] })] }),
    ("bridge", { filters := [.condition (.rollout exposure)] }),
    ("left", { filters := [.parent "bridge", .parent "right"] }),
    ("right", { filters := [.parent "left"] })]

theorem active_of_widened_lanes :
    let h : Hierarchy := { gates := (lanes 40).toGates }
    let h' : Hierarchy := { gates := (lanes 60).toGates }
    let e : Evaluator := { store := ⟨.memory "", h⟩ }
    let e' : Evaluator := { store := ⟨.memory "", h'⟩ }
    let r : Request := { customer := some "dan", overrides := { enabled := ["RIGHT"] } }
    (ofDocument (lanes 40)).answer = .ok h ∧ (ofDocument (lanes 60)).answer = .ok h' ∧
      Widened (lanes 40).gates (lanes 60).gates ∧ r.overrides.toggled = [] ∧
      (e.report r).notices = [] ∧ (e'.report r).notices = [.cycle "left" "left"] ∧
      (∃ l', (e'.listing r).answer.gates[4]? = some l' ∧ l'.path = "search/fast" ∧
        l'.active = true) ∧
      ∃ decision', (e'.report r).answer.get? "right" = some decision' ∧
        decision'.active = true := by
  intro h h' e e' r
  have hd : (ofDocument (lanes 40)).answer = .ok h := rfl
  have hd' : (ofDocument (lanes 60)).answer = .ok h' := rfl
  have hrollout : List.Forall₂ Filter.Wider [.condition (.rollout 40)] [.condition (.rollout 60)] :=
    .cons (.rollout (by decide)) .nil
  have hsame : ∀ filters, List.Forall₂ Filter.Wider filters filters := fun filters =>
    List.forall₂_same.mpr fun f _ => .same f
  have hw : Widened (lanes 40).gates (lanes 60).gates :=
    .cons _ _ hrollout (.cons _ _ (hsame _) .nil .nil) <| .cons _ _ hrollout .nil <|
      .cons _ _ (hsame _) .nil <| .cons _ _ (hsame _) .nil .nil
  have he : e.store.snapshot.gates = h.gates := rfl
  have he' : e'.store.snapshot.gates = h'.gates := rfl
  have htoggled : r.overrides.toggled = [] := rfl
  obtain ⟨hlisting, hreport⟩ := active_of_widened hd hd' hw he he' rfl htoggled
  have hfast : (e.listing r).answer.gates[4]?.map (fun l => (l.path, l.active)) =
      some ("search/fast", true) := by decide +kernel
  obtain ⟨l, hlisted, hl⟩ := Option.map_eq_some_iff.mp hfast
  rw [Prod.mk.injEq] at hl
  obtain ⟨l', hlisted', hpath, hactive⟩ := hlisting 4 l hlisted hl.2
  have hright : (e.report r).answer.get? "right" = some (.overridden true .enabled) := by
    decide +kernel
  exact ⟨hd, hd', hw, htoggled, by decide +kernel, by decide +kernel,
    ⟨l', hlisted', hpath.trans hl.1, hactive⟩, hreport "right" _ hright rfl⟩

end Hierarchy
end FeatureGates
