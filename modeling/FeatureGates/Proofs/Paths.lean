import FeatureGates.Proofs.Arena
import FeatureGates.Proofs.Folding
import FeatureGates.Proofs.Validation

/-!
Paths.  In a document that is accepted every gate has a path of its own, also where case does not
count: siblings have names that differ in more than their case, and no name has a slash in it.  The
gate around a gate is then told by its path, whatever the gates are numbered by.
-/

namespace FeatureGates

/-! ## Paths of sites -/

theorem ValidSiblings.tail {entry : String × Definition} {rest : List (String × Definition)}
    (hsiblings : ValidSiblings (entry :: rest)) : ValidSiblings rest where
  wellFormed e he := hsiblings.wellFormed e (List.mem_cons_of_mem entry he)
  distinct := (List.pairwise_cons.mp hsiblings.distinct).2

theorem WellFormedName.isAscii {name : String} (hname : WellFormedName name) :
    Text.isAscii name = true := by
  rw [Text.isAscii, List.all_eq_true]
  intro c hc
  have hle : c ≤ 'z' := by
    rcases hname.2 c hc with h | h | h | rfl | rfl | rfl
    · exact Char.le_trans h.2 (by decide)
    · exact h.2
    · exact Char.le_trans h.2 (by decide)
    all_goals decide
  have hle' : c.toNat ≤ 'z'.toNat := hle
  have hz : 'z'.toNat = 122 := rfl
  exact decide_eq_true (by omega)

theorem WellFormedName.slash_not_mem {name : String} (hname : WellFormedName name) :
    '/' ∉ name.toList := by
  intro hslash
  rcases hname.2 '/' hslash with h | h | h | h | h | h
  all_goals revert h
  all_goals decide

/-- The names around a site and its own, without regard to case. -/
def Site.foldedTrail (x : Site) : List String := x.trail.map Text.fold

namespace Definition

theorem sitesBelow_append (around : List String) (l l' : List (String × Definition)) :
    sitesBelow around (l ++ l') = sitesBelow around l ++ sitesBelow around l' := by
  induction l with
  | nil => rfl
  | cons entry rest ih =>
    obtain ⟨name, d⟩ := entry
    rw [List.cons_append, sitesBelow_cons, sitesBelow_cons, ih, List.cons_append,
      List.append_assoc]

/-- What is around siblings has no influence on what is in them. -/
theorem map_sitesBelow (around around' : List String) (siblings : List (String × Definition)) :
    (sitesBelow around siblings).map (fun x => (x.name, x.definition)) =
      (sitesBelow around' siblings).map fun x => (x.name, x.definition) := by
  induction siblings using siblings_induction generalizing around around' with
  | hnil => rfl
  | hcons name d rest ihd ihrest =>
    rw [sitesBelow_cons, sitesBelow_cons, List.map_cons, List.map_cons, List.map_append,
      List.map_append, ihd _ (around' ++ [name]), ihrest around around']

theorem forall_sitesBelow {P : String → Definition → Prop} {around : List String}
    {siblings : List (String × Definition)}
    (hall : ∀ x ∈ sitesBelow around siblings, P x.name x.definition) (around' : List String) :
    ∀ x ∈ sitesBelow around' siblings, P x.name x.definition := by
  intro x hx
  have hmem := List.mem_map_of_mem (f := fun x : Site => (x.name, x.definition)) hx
  rw [map_sitesBelow around' around] at hmem
  obtain ⟨y, hy, hyx⟩ := List.mem_map.mp hmem
  have hyP := hall y hy
  rw [Prod.mk.injEq] at hyx
  rwa [hyx.1, hyx.2] at hyP

theorem mem_sitesBelow_of_mem {around : List String} {siblings : List (String × Definition)}
    {entry : String × Definition} (hentry : entry ∈ siblings) :
    ⟨around, entry.1, entry.2⟩ ∈ sitesBelow around siblings := by
  have hself := filter_sitesBelow_self siblings around
  have hmem : Site.mk around entry.1 entry.2 ∈ Site.ofSiblings around siblings :=
    List.mem_map.mpr ⟨entry, hentry, rfl⟩
  rw [← hself] at hmem
  exact (List.mem_filter.mp hmem).1

/-- Every site is one of the siblings or inside one of them. -/
theorem trail_of_mem_sitesBelow {siblings : List (String × Definition)} {around : List String}
    {x : Site} (hx : x ∈ sitesBelow around siblings) :
    ∃ entry ∈ siblings, around ++ [entry.1] <+: x.trail := by
  induction siblings using siblings_induction generalizing around with
  | hnil => cases hx
  | hcons name d rest ihd ihrest =>
    rw [sitesBelow_cons] at hx
    rcases List.mem_cons.mp hx with rfl | hx
    · exact ⟨_, List.mem_cons_self, List.prefix_rfl⟩
    · rcases List.mem_append.mp hx with hx | hx
      · obtain ⟨entry, -, hprefix⟩ := ihd hx
        exact ⟨_, List.mem_cons_self, (List.prefix_append _ _).trans hprefix⟩
      · obtain ⟨entry, hentry, hprefix⟩ := ihrest hx
        exact ⟨entry, List.mem_cons_of_mem _ hentry, hprefix⟩

theorem nodup_foldedTrails {siblings : List (String × Definition)} {around : List String}
    (hsiblings : ValidSiblings siblings)
    (hinside : ∀ x ∈ sitesBelow around siblings, ValidSiblings x.definition.children) :
    ((sitesBelow around siblings).map Site.foldedTrail).Nodup := by
  induction siblings using siblings_induction generalizing around with
  | hnil => exact List.nodup_nil
  | hcons name d rest ihd ihrest =>
    rw [sitesBelow_cons] at hinside ⊢
    obtain ⟨hself, hbelow⟩ := List.forall_mem_cons.mp hinside
    obtain ⟨hdeep, hnext⟩ := List.forall_mem_append.mp hbelow
    have hfirst := (List.pairwise_cons.mp hsiblings.distinct).1
    rw [List.map_cons, List.map_append, List.nodup_cons, List.nodup_append]
    -- A trail inside the first sibling is longer than its own, and no trail from the others on
    -- begins with its name.
    have hother : ∀ x ∈ sitesBelow around rest,
        ¬((around ++ [name]).map Text.fold <+: x.foldedTrail) := by
      intro x hx hprefix
      obtain ⟨entry, hentry, hprefix'⟩ := trail_of_mem_sitesBelow hx
      have hsame : (around ++ [name]).map Text.fold = (around ++ [entry.1]).map Text.fold :=
        List.IsPrefix.eq_of_length_le
          (List.prefix_of_prefix_length_le hprefix (List.IsPrefix.map Text.fold hprefix') (by simp))
          (by simp)
      exact hfirst entry hentry (by simpa using hsame)
    refine ⟨fun hmem => ?_, ihd hself hdeep, ihrest hsiblings.tail hnext, fun t ht t' ht' => ?_⟩
    · rcases List.mem_append.mp hmem with hmem | hmem
      · obtain ⟨x, hx, htrail⟩ := List.mem_map.mp hmem
        obtain ⟨entry, -, hprefix⟩ := trail_of_mem_sitesBelow hx
        have hlen := (List.IsPrefix.map Text.fold hprefix).length_le
        rw [← Site.foldedTrail, htrail] at hlen
        simp [Site.foldedTrail, Site.trail] at hlen
      · obtain ⟨x, hx, htrail⟩ := List.mem_map.mp hmem
        exact hother x hx (htrail ▸ List.prefix_rfl)
    · obtain ⟨x, hx, rfl⟩ := List.mem_map.mp ht
      obtain ⟨y, hy, rfl⟩ := List.mem_map.mp ht'
      intro heq
      obtain ⟨entry, -, hprefix⟩ := trail_of_mem_sitesBelow hx
      exact hother y hy (heq ▸ List.IsPrefix.map Text.fold ((List.prefix_append _ _).trans hprefix))

theorem wellFormed_of_mem_trail {siblings : List (String × Definition)} {around : List String}
    (hsiblings : ValidSiblings siblings)
    (hinside : ∀ x ∈ sitesBelow around siblings, ValidSiblings x.definition.children)
    (haround : ∀ name ∈ around, WellFormedName name) {x : Site}
    (hx : x ∈ sitesBelow around siblings) : ∀ name ∈ x.trail, WellFormedName name := by
  induction siblings using siblings_induction generalizing around with
  | hnil => cases hx
  | hcons name d rest ihd ihrest =>
    rw [sitesBelow_cons] at hinside hx
    obtain ⟨hself, hbelow⟩ := List.forall_mem_cons.mp hinside
    obtain ⟨hdeep, hnext⟩ := List.forall_mem_append.mp hbelow
    have hname : WellFormedName name := hsiblings.wellFormed _ List.mem_cons_self
    have hinner : ∀ other ∈ around ++ [name], WellFormedName other := by
      intro other hother
      rcases List.mem_append.mp hother with hother | hother
      · exact haround other hother
      · rw [List.mem_singleton.mp hother]
        exact hname
    rcases List.mem_cons.mp hx with rfl | hx
    · exact hinner
    · rcases List.mem_append.mp hx with hx | hx
      · exact ihd hself hdeep hinner hx
      · exact ihrest hsiblings.tail hnext haround hx

end Definition

/-- Names without slashes stand between the slashes of their path. -/
theorem splitOn_intercalate_slash {l : List String} (hl : ∀ name ∈ l, '/' ∉ name.toList)
    (hne : l ≠ []) : ("/".intercalate l).toList.splitOn '/' = l.map String.toList := by
  rw [String.toList_intercalate]
  refine List.splitOn_intercalate '/' (fun cs hcs => ?_) (by simpa using hne)
  obtain ⟨name, hname, rfl⟩ := List.mem_map.mp hcs
  exact hl name hname

theorem map_toList_inj {l l' : List String} (hmap : l.map String.toList = l'.map String.toList) :
    l = l' :=
  List.map_injective_iff.mpr (fun _ _ h => String.toList_inj.mp h) hmap

/-- Names without slashes are read back from their path. -/
theorem intercalate_slash_inj {l l' : List String} (hl : ∀ name ∈ l, '/' ∉ name.toList)
    (hl' : ∀ name ∈ l', '/' ∉ name.toList) (hne : l ≠ []) (hne' : l' ≠ [])
    (hpath : "/".intercalate l = "/".intercalate l') : l = l' := by
  refine map_toList_inj ?_
  rw [← splitOn_intercalate_slash hl hne, ← splitOn_intercalate_slash hl' hne', hpath]

theorem Document.Valid.fold_path {d : Document} (hd : d.Valid) {x : Site} (hx : x ∈ d.sites) :
    Text.fold x.path = "/".intercalate x.foldedTrail := by
  have hnames := Definition.wellFormed_of_mem_trail hd.top hd.inside (by simp) hx
  exact (Text.fold_intercalate_of_ascii rfl fun name hname => (hnames name hname).isAscii).2

theorem Document.Valid.nodup_foldedPaths {d : Document} (hd : d.Valid) :
    (d.sites.map fun x => Text.fold x.path).Nodup := by
  have hslash : ∀ x ∈ d.sites, ∀ key ∈ x.foldedTrail, '/' ∉ key.toList := by
    intro x hx key hkey
    obtain ⟨name, hname, rfl⟩ := List.mem_map.mp hkey
    have hformed := Definition.wellFormed_of_mem_trail hd.top hd.inside (by simp) hx name hname
    exact Text.slash_not_mem_fold hformed.isAscii hformed.slash_not_mem
  have hne : ∀ x : Site, x.foldedTrail ≠ [] := by simp [Site.foldedTrail, Site.trail]
  refine List.Nodup.map_on (fun x hx y hy heq => ?_) (List.Nodup.of_map Site.foldedTrail
    (Definition.nodup_foldedTrails hd.top hd.inside))
  rw [hd.fold_path hx, hd.fold_path hy] at heq
  exact List.inj_on_of_nodup_map (Definition.nodup_foldedTrails hd.top hd.inside) hx hy
    (intercalate_slash_inj (hslash x hx) (hslash y hy) (hne x) (hne y) heq)

theorem Document.Valid.nodup_paths {d : Document} (hd : d.Valid) :
    (d.sites.map Site.path).Nodup := by
  refine List.Nodup.of_map Text.fold ?_
  rw [List.map_map]
  exact hd.nodup_foldedPaths

/-! ## Paths of gates -/

namespace Hierarchy

/-- The gate around a gate. -/
def around? (h : Hierarchy) (g : Gate) : Option Gate := g.container.bind h.gate?

theorem mem_of_around? {h : Hierarchy} {g c : Gate} (hc : h.around? g = some c) : c ∈ h.gates := by
  obtain ⟨id, -, hfound⟩ := Option.bind_eq_some_iff.mp hc
  exact List.mem_of_getElem? hfound

section

variable {h : Hierarchy} {d : Document} (hd : h.gates = d.toGates) (hvalid : d.Valid)
include hd hvalid

theorem nodup_foldedPaths : (h.gates.map fun g => Text.fold g.path).Nodup := by
  have hpaths : (h.gates.map fun g => Text.fold g.path) =
      d.sitesByDepth.map fun x => Text.fold x.path := by
    have horder := congrArg
      (List.map fun t : String × String × Option String × List Filter => Text.fold t.2.1)
      (map_gates_eq hd)
    rwa [List.map_map, List.map_map] at horder
  have hperm : d.sitesByDepth.Perm d.sites := List.mergeSort_perm d.sites _
  rw [hpaths, (hperm.map _).nodup_iff]
  exact hvalid.nodup_foldedPaths

theorem nodup_paths : (h.gates.map Gate.path).Nodup := by
  refine List.Nodup.of_map Text.fold ?_
  rw [List.map_map]
  exact nodup_foldedPaths hd hvalid

theorem eq_of_path_eq {g g' : Gate} (hg : g ∈ h.gates) (hg' : g' ∈ h.gates)
    (hpath : g.path = g'.path) : g = g' :=
  List.inj_on_of_nodup_map (nodup_paths hd hvalid) hg hg' hpath

theorem filter_path_eq {g : Gate} (hg : g ∈ h.gates) : h.gates.filter (·.path = g.path) = [g] := by
  obtain ⟨before, after, hgates⟩ := List.append_of_mem hg
  have hnodup := nodup_paths hd hvalid
  rw [hgates, List.map_append, List.map_cons, List.nodup_middle, List.nodup_cons,
    ← List.map_append] at hnodup
  have hothers : (before ++ after).filter (fun q => q.path = g.path) = [] := by
    rw [List.filter_eq_nil_iff]
    intro q hq hpath
    exact hnodup.1 (of_decide_eq_true hpath ▸ List.mem_map_of_mem hq)
  rw [List.filter_append, List.append_eq_nil_iff] at hothers
  rw [hgates, List.filter_append, List.filter_cons, if_pos (decide_eq_true rfl), hothers.1,
    hothers.2, List.nil_append]

end

/-- A gate at the top has its name for a path, and any other gate the path of the gate around it
and its name. -/
theorem around?_cases {h : Hierarchy} {d : Document} (hd : h.gates = d.toGates) {g : Gate}
    (hg : g ∈ h.gates) :
    (g.container = none ∧ g.path = g.name) ∨
      ∃ c, h.around? g = some c ∧ g.path = c.path ++ "/" ++ g.name := by
  obtain ⟨i, p, hp, rfl⟩ := exists_placement hd hg
  rcases Placement.container_cases (List.mem_of_getElem? hp) with htop | ⟨id, q, hq, hid, hpath⟩
  · exact Or.inl htop
  · have hfound := (gate?_eq_some_iff hd).mpr ⟨q, hq, rfl⟩
    refine Or.inr ⟨q.toGate id (Placement.firstInside d id), ?_, hpath⟩
    show p.container.bind h.gate? = _
    rw [hid]
    exact hfound

end Hierarchy
end FeatureGates
