import FeatureGates.Proofs.Agreement
import FeatureGates.Proofs.Exposure
import FeatureGates.Proofs.Paths
import Mathlib.Data.List.Forall2

/-!
Gates of two hierarchies that correspond.

Documents that have much in common may number their gates differently.  A gate and its counterpart
have the same name and the same path, and so have the gates around them and the gates they ask for;
that is enough to carry the least solution of the needs from one hierarchy over to the other, even
where gates need each other in circles.
-/

namespace FeatureGates

/-- A filter that passes where another one does: the same, or a rollout to no fewer customers. -/
inductive Filter.Wider : Filter → Filter → Prop
  | same (f : Filter) : Wider f f
  | rollout {exposure exposure' : Nat} (hle : exposure ≤ exposure') :
      Wider (.condition (.rollout exposure)) (.condition (.rollout exposure'))

/-! ## Lists that correspond -/

section Lists

variable {α β : Type} {R : α → β → Prop} {l : List α} {l' : List β}

theorem exists_of_forall₂ (h : List.Forall₂ R l l') {x : α} (hx : x ∈ l) : ∃ y ∈ l', R x y := by
  induction h with
  | nil => cases hx
  | cons hxy _ ih =>
    rcases List.mem_cons.mp hx with rfl | hx
    · exact ⟨_, List.mem_cons_self, hxy⟩
    · obtain ⟨y, hy, hR⟩ := ih hx
      exact ⟨y, List.mem_cons_of_mem _ hy, hR⟩

theorem forall₂_mem (h : List.Forall₂ R l l') :
    List.Forall₂ (fun x y => x ∈ l ∧ y ∈ l' ∧ R x y) l l' := by
  induction h with
  | nil => exact .nil
  | cons hxy _ ih =>
    refine .cons ⟨List.mem_cons_self, List.mem_cons_self, hxy⟩ (ih.imp fun x y hmem => ?_)
    exact ⟨List.mem_cons_of_mem _ hmem.1, List.mem_cons_of_mem _ hmem.2.1, hmem.2.2⟩

theorem rel_getElem? (h : List.Forall₂ R l l') (i : Nat) : Option.Rel R l[i]? l'[i]? := by
  induction h generalizing i with
  | nil => exact .none
  | cons hxy _ ih =>
    cases i with
    | zero => exact .some hxy
    | succ i => exact ih i

theorem rel_head? (h : List.Forall₂ R l l') : Option.Rel R l.head? l'.head? := by
  cases h with
  | nil => exact .none
  | cons hxy _ => exact .some hxy

theorem rel_find? (h : List.Forall₂ R l l') {p : α → Bool} {q : β → Bool}
    (hpq : ∀ x y, R x y → (p x = true ↔ q y = true)) : Option.Rel R (l.find? p) (l'.find? q) := by
  rw [← List.head?_filter, ← List.head?_filter]
  exact rel_head? (List.rel_filter (fun x y hxy => hpq x y hxy) h)

theorem rel_swap {a : Option α} {b : Option β} (h : Option.Rel R a b) :
    Option.Rel (Function.swap R) b a := by
  cases h with
  | none => exact .none
  | some hxy => exact .some hxy

theorem exists_of_rel {a : Option α} {b : Option β} (h : Option.Rel R a b) {x : α}
    (hx : a = some x) : ∃ y, b = some y ∧ R x y := by
  cases h with
  | none => cases hx
  | some hxy =>
    cases hx
    exact ⟨_, rfl, hxy⟩

end Lists

/-! ## Resemblance -/

/-- Gates of one name at one path, with filters that correspond by `F`. -/
structure Gate.Resembles (F : Filter → Filter → Prop) (g g' : Gate) : Prop where
  name : g.name = g'.name
  path : g.path = g'.path
  group : g.group = g'.group
  filters : List.Forall₂ F g.filters g'.filters

structure Site.Resembles (F : Filter → Filter → Prop) (x x' : Site) : Prop where
  around : x.around = x'.around
  name : x.name = x'.name
  group : x.definition.group = x'.definition.group
  filters : List.Forall₂ F x.definition.filters x'.definition.filters

section

variable {F : Filter → Filter → Prop} {d d' : Document} {hidden : String → Bool}

/-- Sites that resemble one another in document order also do so by depth. -/
theorem forall₂_sitesByDepth
    (h : List.Forall₂ (Site.Resembles F) d.sites (d'.sites.filter fun x => !hidden x.name)) :
    List.Forall₂ (Site.Resembles F) d.sitesByDepth
      (d'.sitesByDepth.filter fun x => !hidden x.name) := by
  have hlevel : ∀ x x', Site.Resembles F x x' → x.depth = x'.depth := fun x x' hxx =>
    congrArg List.length hxx.around
  have hdepth : ∀ x ∈ d.sites, x.depth < Definition.heights d'.gates := by
    intro x hx
    obtain ⟨x', hx', hxx⟩ := exists_of_forall₂ h hx
    rw [hlevel x x' hxx]
    exact d'.depth_lt_heights x' (List.mem_filter.mp hx').1
  rw [d.sitesByDepth_eq_flatMap hdepth, d'.sitesByDepth_eq_levels, List.filter_flatMap]
  induction List.range (Definition.heights d'.gates) with
  | nil => exact .nil
  | cons n rest ih =>
    rw [List.flatMap_cons, List.flatMap_cons, List.filter_comm]
    refine List.rel_append (List.rel_filter (fun x x' hxx => ?_) h) ih
    simp only [hlevel x x' hxx]

theorem forall₂_gates {h h' : Hierarchy} (hd : h.gates = d.toGates) (hd' : h'.gates = d'.toGates)
    (hsites : List.Forall₂ (Site.Resembles F) d.sites (d'.sites.filter fun x => !hidden x.name)) :
    List.Forall₂ (Gate.Resembles F) h.gates (h'.gates.filter fun g => !hidden g.name) := by
  let related (t t' : String × String × Option String × List Filter) : Prop :=
    t.1 = t'.1 ∧ t.2.1 = t'.2.1 ∧ t.2.2.1 = t'.2.2.1 ∧ List.Forall₂ F t.2.2.2 t'.2.2.2
  have hshown : List.Forall₂ related
      (d.sitesByDepth.map fun x => (x.name, x.path, x.definition.group, x.definition.filters))
      ((d'.sitesByDepth.map fun x =>
        (x.name, x.path, x.definition.group, x.definition.filters)).filter (!hidden ·.1)) := by
    rw [List.filter_map, List.forall₂_map_left_iff, List.forall₂_map_right_iff]
    refine (forall₂_sitesByDepth hsites).imp fun x x' hxx => ⟨hxx.name, ?_, hxx.group, hxx.filters⟩
    show "/".intercalate (x.around ++ [x.name]) = "/".intercalate (x'.around ++ [x'.name])
    rw [hxx.around, hxx.name]
  rw [← Hierarchy.map_gates_eq hd, ← Hierarchy.map_gates_eq hd', List.filter_map,
    List.forall₂_map_left_iff, List.forall₂_map_right_iff] at hshown
  exact hshown.imp fun g g' hgg => ⟨hgg.1, hgg.2.1, hgg.2.2.1, hgg.2.2.2⟩

end

/-! ## Counterparts -/

/-- By `R` gates of two hierarchies correspond, together with all gates that they need. -/
structure Counterparts (F : Filter → Filter → Prop) (h h' : Hierarchy) (R : Gate → Gate → Prop) :
    Prop where
  mem : ∀ {g g'}, R g g' → g ∈ h.gates ∧ g' ∈ h'.gates
  name : ∀ {g g'}, R g g' → g.name = g'.name
  filters : ∀ {g g'}, R g g' → List.Forall₂ F g.filters g'.filters
  around : ∀ {g g'}, R g g' → Option.Rel R (h.around? g) (h'.around? g')
  target : ∀ {g g'}, R g g' → ∀ name, .parent name ∈ g.filters →
    Option.Rel R (h.named? name) (h'.named? name)

/-- Gates of two hierarchies that resemble one another. -/
def Hierarchy.Alike (F : Filter → Filter → Prop) (h h' : Hierarchy) (g g' : Gate) : Prop :=
  g ∈ h.gates ∧ g' ∈ h'.gates ∧ g.Resembles F g'

section

/- The gates of `h` are those of `h'` without the ones whose names are `added`. -/
variable {F : Filter → Filter → Prop} {h h' : Hierarchy} {added : List String}
  (hgates : List.Forall₂ (Gate.Resembles F) h.gates
    (h'.gates.filter fun g => !Text.listsName added g.name))
include hgates

theorem forall₂_alike : List.Forall₂ (h.Alike F h') h.gates
    (h'.gates.filter fun g => !Text.listsName added g.name) :=
  (forall₂_mem hgates).imp fun _ _ hmem => ⟨hmem.1, (List.mem_filter.mp hmem.2.1).1, hmem.2.2⟩

/-- A name that was not added leads to gates that are alike. -/
theorem rel_named? {name : String} (hname : Text.listsName added name = false) :
    Option.Rel (h.Alike F h') (h.named? name) (h'.named? name) := by
  have hfiltered : h'.named? name = (h'.gates.filter fun g => !Text.listsName added g.name).find?
      fun g => Text.fold g.name = Text.fold name := by
    rw [Hierarchy.named?_eq_find?, ← List.head?_filter, ← List.head?_filter, List.filter_filter]
    refine congrArg List.head? (List.filter_congr fun g _ => ?_)
    by_cases hfold : Text.fold g.name = Text.fold name
    · simp [hfold, Text.listsName_congr hfold, hname]
    · simp [hfold]
  rw [hfiltered, Hierarchy.named?_eq_find?]
  refine rel_find? (forall₂_alike hgates) fun g g' halike => ?_
  rw [halike.2.2.name]

/-- Gates that are alike are counterparts, if none of them asks for a gate that was added. -/
theorem counterparts_of_forall₂ {d d' : Document} (hd : h.gates = d.toGates)
    (hd' : h'.gates = d'.toGates) (hvalid : d'.Valid)
    (htarget : ∀ g ∈ h.gates, ∀ name, .parent name ∈ g.filters →
      Text.listsName added name = false) :
    Counterparts F h h' (h.Alike F h') where
  mem halike := ⟨halike.1, halike.2.1⟩
  name halike := halike.2.2.name
  filters halike := halike.2.2.filters
  target halike name hname := rel_named? hgates (htarget _ halike.1 name hname)
  around := by
    intro g g' halike
    obtain ⟨hg, hg', hgg⟩ := halike
    -- What is in front of the name in a path is the path of the gate around it, and tells it.
    have hlonger : ∀ path name : String, name ≠ path ++ "/" ++ name := by
      intro path name heq
      have hlen := congrArg String.length heq
      simp at hlen
    rcases Hierarchy.around?_cases hd hg with ⟨htop, hpath⟩ | ⟨c, hc, hpath⟩
    · rcases Hierarchy.around?_cases hd' hg' with ⟨htop', -⟩ | ⟨c', -, hpath'⟩
      · rw [Hierarchy.around?, Hierarchy.around?, htop, htop']
        exact .none
      · rw [← hgg.path, ← hgg.name, hpath] at hpath'
        exact absurd hpath' (hlonger _ _)
    · rcases Hierarchy.around?_cases hd' hg' with ⟨-, hpath'⟩ | ⟨c', hc', hpath'⟩
      · rw [← hgg.path, ← hgg.name, hpath] at hpath'
        exact absurd hpath'.symm (hlonger _ _)
      · rw [← hgg.path, ← hgg.name, hpath] at hpath'
        have hsame : c.path = c'.path :=
          (String.append_left_inj "/").mp ((String.append_left_inj g.name).mp hpath')
        obtain ⟨q, hq, hcq⟩ := exists_of_forall₂ hgates (Hierarchy.mem_of_around? hc)
        have hqc : q = c' := Hierarchy.eq_of_path_eq hd' hvalid (List.mem_filter.mp hq).1
          (Hierarchy.mem_of_around? hc') (hcq.path.symm.trans hsame)
        rw [hc, hc', ← hqc]
        exact .some ⟨Hierarchy.mem_of_around? hc, (List.mem_filter.mp hq).1, hcq⟩

end

namespace Hierarchy

variable {h : Hierarchy} (hl : h.Loaded)
include hl

theorem containerOn_iff (r : Request) (o : Options) {on : Gate → Prop} {g : Gate}
    (hg : g ∈ h.gates) :
    (h.view.scope r o).answer.ContainerOn on g ↔ ∀ c, h.around? g = some c → on c := by
  constructor
  · intro hc c hfound
    obtain ⟨id, hid, hc'⟩ := Option.bind_eq_some_iff.mp hfound
    obtain ⟨c', hfound', hon⟩ := hc id hid
    have hsame : some c = some c' := hc'.symm.trans hfound'
    cases hsame
    exact hon
  · intro hall id hid
    obtain ⟨c, hc⟩ := hl.exists_container hg hid
    refine ⟨c, hc, hall c ?_⟩
    rw [around?, hid]
    exact hc

theorem verdict_eq_around (r : Request) (o : Options) {g : Gate} (hg : g ∈ h.gates) :
    (h.view.scope r o).answer.verdict g =
      match h.around? g with
      | none => (h.view.scope r o).answer.filterVerdict g
      | some c =>
        open Classical in
        if (h.view.scope r o).answer.Active c then (h.view.scope r o).answer.filterVerdict g
        else .containerInactive c.name := by
  rw [Scope.verdict, around?]
  cases hid : g.container with
  | none => rfl
  | some id =>
    obtain ⟨c, hc⟩ := hl.exists_container hg hid
    have hfound : (h.view.scope r o).answer.view.gate? id = some c := hc
    rw [Option.bind_some, hc]
    dsimp only
    rw [hfound]

end Hierarchy

namespace Counterparts

variable {F : Filter → Filter → Prop} {h h' : Hierarchy} {R : Gate → Gate → Prop}

theorem filters_eq (hc : Counterparts Eq h h' R) {g g' : Gate} (hR : R g g') :
    g.filters = g'.filters := by
  have hfilters := hc.filters hR
  rwa [List.forall₂_eq_eq_eq] at hfilters

/-- Gates with the same filters correspond in both directions. -/
theorem swap (hc : Counterparts Eq h h' R) : Counterparts Eq h' h (Function.swap R) where
  mem hR := (hc.mem hR).symm
  name hR := (hc.name hR).symm
  filters hR := by
    rw [hc.filters_eq hR, List.forall₂_eq_eq_eq]
  around hR := rel_swap (hc.around hR)
  target hR name hname := rel_swap (hc.target hR name (hc.filters_eq hR ▸ hname))

variable (r : Request) (o : Options)

/-- What passes with the gates that are `on` also passes with their counterparts. -/
theorem passes (hc : Counterparts F h h' R) {on on' : Gate → Prop}
    (hon : ∀ p p', R p p' → on p → on' p') {g g' : Gate} (hR : R g g') {f f' : Filter}
    (hf : f ∈ g.filters) (hff : f.Wider f')
    (hpass : (h.view.scope r o).answer.Passes on g f) :
    (h'.view.scope r o).answer.Passes on' g' f' := by
  have hname := hc.name hR
  cases hff with
  | same =>
    cases f with
    | condition c =>
      have hholds : c.holds ((h.view.scope r o).answer.circumstances g.name) = true := hpass
      rw [hname] at hholds
      exact hholds
    | parent name =>
      obtain ⟨p, hp, honp⟩ := hpass
      obtain ⟨p', hp', hR'⟩ := exists_of_rel (hc.target hR name hf) hp
      exact ⟨p', hp', hon p p' hR' honp⟩
  | rollout hle =>
    have hreaches := Rollout.reaches_mono hle hpass
    rw [hname] at hreaches
    exact hreaches

variable (hl : h.Loaded) (hl' : h'.Loaded)
include hl hl'

/-- A gate is on if the gate that it is the counterpart of is on. -/
theorem active (hc : Counterparts F h h' R) (hF : ∀ f f', F f f' → f.Wider f') {g g' : Gate}
    (hR : R g g') (hg : (h.view.scope r o).answer.Active g) :
    (h'.view.scope r o).answer.Active g' := by
  -- The gates whose counterparts are on have all that they need among themselves.
  have hall : ∀ g', R g g' → (h'.view.scope r o).answer.Active g' := by
    refine hg.induction (P := fun q => ∀ q', R q q' → (h'.view.scope r o).answer.Active q')
      fun q hcontainer hfilters q' hR' => Scope.active_iff.mpr ⟨?_, ?_⟩
    · rw [Hierarchy.containerOn_iff hl' r o (hc.mem hR').2]
      intro c' hc'
      obtain ⟨c, hfound, hRc⟩ := exists_of_rel (rel_swap (hc.around hR')) hc'
      exact (Hierarchy.containerOn_iff hl r o (hc.mem hR').1).mp hcontainer c hfound c' hRc
    · intro f' hf'
      have hswapped : List.Forall₂ (Function.swap F) q'.filters q.filters := (hc.filters hR').flip
      obtain ⟨f, hf, hff⟩ := exists_of_forall₂ hswapped hf'
      exact hc.passes r o (fun p p' hRp hp => hp p' hRp) hR' hf (hF f f' hff) (hfilters f hf)
  exact hall g' hR

theorem active_iff (hc : Counterparts Eq h h' R) {g g' : Gate} (hR : R g g') :
    (h.view.scope r o).answer.Active g ↔ (h'.view.scope r o).answer.Active g' := by
  have hsame : ∀ f f' : Filter, f = f' → f.Wider f' := fun f f' hff => hff ▸ .same f
  exact ⟨hc.active r o hl hl' hsame hR, hc.swap.active r o hl' hl hsame hR⟩

theorem filterVerdict_eq (hc : Counterparts Eq h h' R) {g g' : Gate} (hR : R g g') :
    (h.view.scope r o).answer.filterVerdict g = (h'.view.scope r o).answer.filterVerdict g' := by
  refine Scope.filterVerdict_congr (hc.filters_eq hR) fun f hf => ⟨?_, ?_⟩
  · exact hc.passes r o (fun p p' hRp => (hc.active_iff r o hl hl' hRp).mp) hR hf (.same f)
  · exact hc.swap.passes r o (fun p' p hRp => (hc.active_iff r o hl hl' hRp).mpr) hR
      (hc.filters_eq hR ▸ hf) (.same f)

/-- Counterparts with the same filters have the same verdict, with the same reason. -/
theorem verdict_eq (hc : Counterparts Eq h h' R) {g g' : Gate} (hR : R g g') :
    (h.view.scope r o).answer.verdict g = (h'.view.scope r o).answer.verdict g' := by
  have haround := hc.around hR
  rw [Hierarchy.verdict_eq_around hl r o (hc.mem hR).1,
    Hierarchy.verdict_eq_around hl' r o (hc.mem hR).2, hc.filterVerdict_eq r o hl hl' hR]
  generalize h.around? g = a, h'.around? g' = a' at haround
  cases haround with
  | none => rfl
  | some hRc =>
    dsimp only
    have hon := hc.active_iff r o hl hl' hRc
    split
    · rename_i hactive
      rw [if_pos (hon.mp hactive)]
    · rename_i hactive
      rw [if_neg fun hactive' => hactive (hon.mpr hactive'), hc.name hRc]

theorem verdictOn_eq (hc : Counterparts Eq h h' R) {name : String}
    (hrel : Option.Rel R (h.named? name) (h'.named? name)) :
    (h.view.scope r o).answer.verdictOn name = (h'.view.scope r o).answer.verdictOn name := by
  show ((h.named? name).map _).getD _ = ((h'.named? name).map _).getD _
  generalize h.named? name = a, h'.named? name = a' at hrel
  cases hrel with
  | none => rfl
  | some hR => exact hc.verdict_eq r o hl hl' hR

end Counterparts
end FeatureGates
