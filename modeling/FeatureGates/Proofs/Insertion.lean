import FeatureGates.Proofs.Counterparts

/-!
Documents with one gate more.

A gate, with all gates inside it, may be put among the gates at the top or inside any gate.  All
gates behind it are numbered anew, and the gates are decided in another order.  If no name in it has
anything to do with the other gates, each of them is at the same path with the same decision.
-/

namespace FeatureGates

/-- Siblings after an entry was put beside them or inside one of them. -/
inductive Inserts (entry : String × Definition) :
    List (String × Definition) → List (String × Definition) → Prop
  | beside (before after : List (String × Definition)) :
      Inserts entry (before ++ after) (before ++ entry :: after)
  | inside (before after : List (String × Definition)) (name : String) (group : Option String)
      (filters : List Filter) {children children' : List (String × Definition)}
      (hchildren : Inserts entry children children') :
      Inserts entry (before ++ (name, ⟨group, filters, children⟩) :: after)
        (before ++ (name, ⟨group, filters, children'⟩) :: after)

/-- The gate that a filter asks for. -/
def Filter.target? : Filter → Option String
  | condition _ => none
  | parent gate => some gate

/-- The names of all gates. -/
def Document.names (d : Document) : List String := d.sites.map (·.name)

/-- The names that occur in a document: those of its gates and those that their filters ask for. -/
def Document.mentions (d : Document) : List String :=
  d.sites.flatMap fun x => x.name :: x.definition.filters.filterMap Filter.target?

/-- No gate of `added` has a name that occurs in `d`. -/
def Document.Unrelated (added d : Document) : Prop :=
  ∀ name ∈ added.names, ∀ other ∈ d.mentions, Text.fold name ≠ Text.fold other

/-! ## What is accepted -/

/-- A gate in which nothing is wrong: neither with its rollouts nor with the names inside it. -/
structure Definition.Sound (d : Definition) : Prop where
  names : ValidSiblings d.children
  exposure : ∀ percentage, .condition (.rollout percentage) ∈ d.filters → percentage ≤ 100

theorem Document.valid_iff {d : Document} :
    d.Valid ↔ ValidSiblings d.gates ∧ ∀ x ∈ d.sites, x.definition.Sound :=
  ⟨fun h => ⟨h.top, fun x hx => ⟨h.inside x hx, h.exposure x hx⟩⟩,
    fun h => ⟨h.1, fun x hx => (h.2 x hx).names, fun x hx => (h.2 x hx).exposure⟩⟩

/-- Only the names of siblings count. -/
theorem ValidSiblings.congr {l l' : List (String × Definition)}
    (hnames : l.map (·.1) = l'.map (·.1)) (hl : ValidSiblings l) : ValidSiblings l' where
  wellFormed entry hentry := by
    have hmem : entry.1 ∈ l'.map (·.1) := List.mem_map_of_mem hentry
    rw [← hnames] at hmem
    obtain ⟨other, hother, hsame⟩ := List.mem_map.mp hmem
    exact hsame ▸ hl.wellFormed other hother
  distinct := by
    have hdistinct : (l.map (·.1)).Pairwise fun a b => Text.fold a ≠ Text.fold b :=
      List.pairwise_map.mpr hl.distinct
    rw [hnames, List.pairwise_map] at hdistinct
    exact hdistinct

namespace Inserts

open Definition

variable {entry : String × Definition} {l l' : List (String × Definition)} {around : List String}

theorem valid (hi : Inserts entry l l') (hname : WellFormedName entry.1)
    (hadded : ∀ around, ∀ x ∈ sitesBelow around [entry], x.definition.Sound)
    (hl : ValidSiblings l) (hsound : ∀ x ∈ sitesBelow around l, x.definition.Sound)
    (hnew : ∀ x ∈ sitesBelow around l, Text.fold entry.1 ≠ Text.fold x.name) :
    ValidSiblings l' ∧ ∀ x ∈ sitesBelow around l', x.definition.Sound := by
  induction hi generalizing around with
  | beside before after =>
    refine ⟨⟨fun e he => ?_, ?_⟩, ?_⟩
    · rcases List.mem_append.mp he with he | he
      · exact hl.wellFormed e (List.mem_append_left after he)
      · rcases List.mem_cons.mp he with rfl | he
        · exact hname
        · exact hl.wellFormed e (List.mem_append_right before he)
    · -- The names beside the new one are names of sites, so it repeats none of them.
      rw [List.pairwise_middle fun hne => hne.symm, List.pairwise_cons]
      exact ⟨fun e he => hnew ⟨around, e.1, e.2⟩ (mem_sitesBelow_of_mem he), hl.distinct⟩
    · rw [sitesBelow_append, List.forall_mem_append] at hsound
      rw [← List.singleton_append, sitesBelow_append, sitesBelow_append, List.forall_mem_append,
        List.forall_mem_append]
      exact ⟨hsound.1, hadded around, hsound.2⟩
  | inside before after name group filters hchildren ih =>
    refine ⟨hl.congr (by simp), ?_⟩
    rw [sitesBelow_append, sitesBelow_cons, List.forall_mem_append, List.forall_mem_cons,
      List.forall_mem_append] at hsound hnew ⊢
    obtain ⟨hbefore, hself, hin, hafter⟩ := hsound
    obtain ⟨hnames, hin'⟩ := ih hself.names hin hnew.2.2.1
    exact ⟨hbefore, ⟨hnames, hself.exposure⟩, hin', hafter⟩

/-! ## What is kept -/

theorem forall₂_of_shown {hidden : String → Bool} {l : List Site}
    (hshown : ∀ x ∈ l, hidden x.name = false) :
    List.Forall₂ (Site.Resembles Eq) l (l.filter fun x => !hidden x.name) := by
  rw [List.filter_eq_self.mpr fun x hx => by simp [hshown x hx], List.forall₂_same]
  exact fun x _ => ⟨rfl, rfl, rfl, List.forall₂_eq_eq_eq ▸ rfl⟩

/-- Without the gates that were put in, the sites are what they were, in the same order. -/
theorem forall₂_sites (hi : Inserts entry l l') {hidden : String → Bool}
    (hhidden : ∀ around, ∀ x ∈ sitesBelow around [entry], hidden x.name = true)
    (hshown : ∀ x ∈ sitesBelow around l, hidden x.name = false) :
    List.Forall₂ (Site.Resembles Eq) (sitesBelow around l)
      ((sitesBelow around l').filter fun x => !hidden x.name) := by
  induction hi generalizing around with
  | beside before after =>
    have hnone : (sitesBelow around [entry]).filter (fun x => !hidden x.name) = [] := by
      rw [List.filter_eq_nil_iff]
      intro x hx
      simp [hhidden around x hx]
    rw [sitesBelow_append, List.forall_mem_append] at hshown
    rw [← List.singleton_append, sitesBelow_append, sitesBelow_append, sitesBelow_append,
      List.filter_append, List.filter_append, hnone, List.nil_append]
    exact List.rel_append (forall₂_of_shown hshown.1) (forall₂_of_shown hshown.2)
  | inside before after name group filters hchildren ih =>
    rw [sitesBelow_append, sitesBelow_cons, List.forall_mem_append, List.forall_mem_cons,
      List.forall_mem_append] at hshown
    obtain ⟨hbefore, hself, hin, hafter⟩ := hshown
    rw [sitesBelow_append, sitesBelow_append, sitesBelow_cons, sitesBelow_cons, List.filter_append,
      List.filter_cons, if_pos (by rw [Bool.not_eq_true']; exact hself), List.filter_append]
    exact List.rel_append (forall₂_of_shown hbefore)
      (.cons ⟨rfl, rfl, rfl, List.forall₂_eq_eq_eq ▸ rfl⟩
        (List.rel_append (ih hin) (forall₂_of_shown hafter)))

end Inserts

/-! ## Hierarchies with more gates -/

section

variable {d d' added : Document}

theorem not_listsName_iff {names : List String} {name : String} :
    Text.listsName names name = false ↔ ∀ other ∈ names, Text.fold other ≠ Text.fold name := by
  rw [← Bool.not_eq_true, Text.listsName_iff]
  simp

theorem Document.Unrelated.name (hunrelated : added.Unrelated d) {x : Site} (hx : x ∈ d.sites) :
    Text.listsName added.names x.name = false :=
  not_listsName_iff.mpr fun other hother => hunrelated other hother x.name
    (List.mem_flatMap.mpr ⟨x, hx, List.mem_cons_self⟩)

theorem Document.Unrelated.target (hunrelated : added.Unrelated d) {h : Hierarchy}
    (hd : h.gates = d.toGates) {g : Gate} (hg : g ∈ h.gates) {name : String}
    (hname : .parent name ∈ g.filters) : Text.listsName added.names name = false := by
  have hmem := List.mem_map_of_mem (f := fun g : Gate => (g.name, g.path, g.group, g.filters)) hg
  rw [Hierarchy.map_gates_eq hd] at hmem
  obtain ⟨x, hx, hxg⟩ := List.mem_map.mp hmem
  simp only [Prod.mk.injEq] at hxg
  rw [← hxg.2.2.2] at hname
  refine not_listsName_iff.mpr fun other hother => hunrelated other hother name ?_
  exact List.mem_flatMap.mpr ⟨x, List.mem_mergeSort.mp hx,
    List.mem_cons_of_mem _ (List.mem_filterMap.mpr ⟨_, hname, rfl⟩)⟩

end

section

variable {d d' : Document} {entry : String × Definition} (hi : Inserts entry d.gates d'.gates)
  (hunrelated : Document.Unrelated ⟨[entry]⟩ d)
include hi hunrelated

theorem Inserts.valid_document (hentry : Document.Valid ⟨[entry]⟩) (hd : d.Valid) : d'.Valid := by
  rw [Document.valid_iff] at hentry hd ⊢
  have hmem : ∀ around, ⟨around, entry.1, entry.2⟩ ∈ Definition.sitesBelow around [entry] :=
    fun around => Definition.mem_sitesBelow_of_mem List.mem_cons_self
  exact hi.valid (hentry.1.wellFormed entry List.mem_cons_self)
    (Definition.forall_sitesBelow (P := fun _ definition => definition.Sound) hentry.2) hd.1 hd.2
    fun x hx => not_listsName_iff.mp (hunrelated.name hx) entry.1
      (List.mem_map.mpr ⟨_, hmem [], rfl⟩)

theorem Inserts.forall₂_gates {h h' : Hierarchy} (hd : h.gates = d.toGates)
    (hd' : h'.gates = d'.toGates) :
    List.Forall₂ (Gate.Resembles Eq) h.gates (h'.gates.filter fun g =>
      !Text.listsName (Document.names ⟨[entry]⟩) g.name) := by
  refine FeatureGates.forall₂_gates hd hd' (hi.forall₂_sites (fun around x hx => ?_)
    fun x hx => hunrelated.name hx)
  have hlisted : ∀ y ∈ (Document.mk [entry]).sites,
      Text.listsName (Document.names ⟨[entry]⟩) y.name = true := fun y hy =>
    (Text.listsName_iff _ _).mpr ⟨y.name, List.mem_map_of_mem hy, rfl⟩
  exact Definition.forall_sitesBelow (P := fun name _ =>
    Text.listsName (Document.names ⟨[entry]⟩) name = true) hlisted around x hx

end

namespace Hierarchy

/-- A gate that has nothing to do with the others can be put into a document that is accepted, and
the document is accepted again.  Without the gates that were put in, the listing is what it was, and
each of its gates is the only one at its path.  What is asked for by any other name is decided as
before. -/
theorem ofDocument_inserts {d d' : Document} {entry : String × Definition} {h : Hierarchy}
    (hd : (ofDocument d).answer = .ok h) (hi : Inserts entry d.gates d'.gates)
    (hentry : Document.Valid ⟨[entry]⟩) (hunrelated : Document.Unrelated ⟨[entry]⟩ d) :
    ∃ h', (ofDocument d').answer = .ok h' ∧
      ∀ (e e' : Evaluator) (r : Request), e.store.snapshot.gates = h.gates →
        e'.store.snapshot.gates = h'.gates → e'.options = e.options →
        (e'.listing r).answer.gates.filter (fun l =>
          ∀ added ∈ Document.names ⟨[entry]⟩, Text.fold added ≠ Text.fold l.name) =
            (e.listing r).answer.gates ∧
        (∀ l ∈ (e.listing r).answer.gates,
          (e'.listing r).answer.gates.filter (·.path = l.path) = [l]) ∧
        ∀ name, (∀ added ∈ Document.names ⟨[entry]⟩, Text.fold added ≠ Text.fold name) →
          (e'.decision name r).answer = (e.decision name r).answer := by
  have hvalid : d.Valid := (exists_ok_iff d).mp ⟨h, hd⟩
  have hvalid' : d'.Valid := hi.valid_document hunrelated hentry hvalid
  obtain ⟨h', hd'⟩ := (exists_ok_iff d').mpr hvalid'
  refine ⟨h', hd', fun e e' r he he' ho => ?_⟩
  rw [gates_of_ofDocument hd] at he
  rw [gates_of_ofDocument hd'] at he'
  have hl := Loaded.of_valid he hvalid
  have hl' := Loaded.of_valid he' hvalid'
  have hgates := hi.forall₂_gates hunrelated he he'
  have hc := counterparts_of_forall₂ hgates he he' hvalid' fun g hg name hname =>
    hunrelated.target he hg hname
  let s := (e.store.snapshot.view.scope r e.options).answer
  let s' := (e'.store.snapshot.view.scope r e.options).answer
  -- Both listings are read off the larger hierarchy: one from all its gates, and one from those
  -- that were there before.
  let shown' (g : Gate) : ListedGate := ListedGate.of g (r.overrides.amend g.name (s'.verdict g))
  have hlisting' : (e'.listing r).answer.gates = e'.store.snapshot.gates.map shown' :=
    gates_listing hl' r e.options rfl ho
  have hlisting : (e.listing r).answer.gates = (e'.store.snapshot.gates.filter fun g =>
      !Text.listsName (Document.names ⟨[entry]⟩) g.name).map shown' := by
    rw [gates_listing hl r e.options rfl rfl, ← List.forall₂_eq_eq_eq, List.forall₂_map_left_iff,
      List.forall₂_map_right_iff]
    refine (forall₂_alike hgates).imp fun g g' halike => ?_
    have hverdict : s.verdict g = s'.verdict g' := hc.verdict_eq r e.options hl hl' halike
    obtain ⟨-, -, hname, hpath, hgroup, -⟩ := halike
    show ListedGate.of g (r.overrides.amend g.name (s.verdict g)) = shown' g'
    simp only [shown', ListedGate.of, hverdict, hname, hpath, hgroup]
  refine ⟨?_, fun l hlisted => ?_, fun name hname => ?_⟩
  · rw [hlisting', hlisting, List.filter_map]
    refine congrArg (List.map shown') (List.filter_congr fun g _ => ?_)
    rw [Bool.eq_iff_iff, Bool.not_eq_true', not_listsName_iff, Function.comp_apply,
      decide_eq_true_iff]
    rfl
  · rw [hlisting] at hlisted
    obtain ⟨g, hg, rfl⟩ := List.mem_map.mp hlisted
    rw [hlisting', List.filter_map]
    exact congrArg (List.map shown') (filter_path_eq he' hvalid' (List.mem_filter.mp hg).1)
  · have hrel := rel_named? hgates (not_listsName_iff.mpr hname)
    show (e'.store.snapshot.view.decision name r e'.options).answer = _
    rw [ho, answer_decision hl', ← hc.verdictOn_eq r e.options hl hl' hrel]
    exact (answer_decision hl r e.options name).symm

/-- A gate that waits for its sibling, and a gate that waits for that one and for itself. -/
def market : Document where
  gates := [
    ("fair", { children := [("rides", { filters := [.parent "Till"] }), ("till", {})] }),
    ("tour", { filters := [.parent "rides", .parent "tour"] })]

def stall : String × Definition :=
  ("Stall", { filters := [.parent "till"], children := [("awning", {})] })

def marketWithStall : Document where
  gates := [
    ("fair", { children := [stall, ("rides", { filters := [.parent "Till"] }), ("till", {})] }),
    ("tour", { filters := [.parent "rides", .parent "tour"] })]

theorem ofDocument_inserts_stall :
    let h : Hierarchy := { gates := market.toGates }
    let rides : ListedGate := ⟨"rides", "fair/rides", none, true, .filtersPassed⟩
    (ofDocument market).answer = .ok h ∧ Inserts stall market.gates marketWithStall.gates ∧
      Document.Valid ⟨[stall]⟩ ∧ Document.Unrelated ⟨[stall]⟩ market ∧
      ∃ h', (ofDocument marketWithStall).answer = .ok h' ∧
        let e : Evaluator := { store := ⟨.memory "", h⟩ }
        let e' : Evaluator := { store := ⟨.memory "", h'⟩ }
        (e.listing {}).answer.gates[2]? = some rides ∧
          (e'.listing {}).answer.gates.filter (·.path = "fair/rides") = [rides] ∧
          (e'.decision "TOUR" {}).answer = .filterFailed 1 .parent := by
  intro h rides
  have hd : (ofDocument market).answer = .ok h := rfl
  have hi : Inserts stall market.gates marketWithStall.gates :=
    .inside [] _ "fair" none [] (.beside [] _)
  have hentry : Document.Valid ⟨[stall]⟩ := (exists_ok_iff _).mp ⟨_, rfl⟩
  have hnames : Document.names ⟨[stall]⟩ = ["Stall", "awning"] := rfl
  have hmentions : market.mentions =
      ["fair", "rides", "Till", "till", "tour", "rides", "tour"] := rfl
  have hunrelated : Document.Unrelated ⟨[stall]⟩ market := by
    rw [Document.Unrelated, hnames, hmentions]
    decide +kernel
  obtain ⟨h', hd', hsame⟩ := ofDocument_inserts hd hi hentry hunrelated
  refine ⟨hd, hi, hentry, hunrelated, h', hd', ?_⟩
  intro e e'
  obtain ⟨-, hpath, hdecision⟩ := hsame e e' {} rfl rfl rfl
  have hplace : (e.listing {}).answer.gates[2]? = some rides := rfl
  have htour : (e.decision "TOUR" {}).answer = .filterFailed 1 .parent := by decide +kernel
  have hother : ∀ added ∈ Document.names ⟨[stall]⟩, Text.fold added ≠ Text.fold "TOUR" := by
    rw [hnames]
    decide +kernel
  exact ⟨hplace, hpath rides (List.mem_of_getElem? hplace), (hdecision "TOUR" hother).trans htour⟩

end Hierarchy
end FeatureGates
