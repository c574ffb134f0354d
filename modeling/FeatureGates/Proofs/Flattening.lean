import FeatureGates.Proofs.Numbering
import FeatureGates.Proofs.Sites

/-!
Flattening a document and reading it back.

The placements of a document satisfy one equation: they are the placements at the top, followed by
what is inside each placement in turn.  Everything else follows from it: which numbers are inside a
gate, that a container comes before what it contains, and that nothing is lost.
-/

namespace FeatureGates

namespace Placement

/-! ## Levels -/

/-- What a placement says, apart from numbers. -/
def entry (p : Placement) : String × String × Definition := (p.name, p.path, p.definition)

/-- The entries inside an entry. -/
def entriesInside (e : String × String × Definition) : List (String × String × Definition) :=
  e.2.2.children.map fun child => (child.1, e.2.1 ++ "/" ++ child.1, child.2)

theorem map_entry_children (p : Placement) (id : Nat) :
    (p.children id).map entry = entriesInside p.entry := by
  simp [children, ofSiblings, entriesInside, entry, pathBelow, Function.comp_def]

theorem map_entry_nextLevel (first : Nat) (level : List Placement) :
    (nextLevel first level).map entry = (level.map entry).flatMap entriesInside := by
  have hfst : level = (level.zipIdx first).map (·.1) := (List.zipIdx_map_fst first level).symm
  conv_rhs => rw [hfst]
  rw [nextLevel, List.map_flatMap, List.flatMap_map, List.flatMap_map]
  refine List.flatMap_congr fun q _ => ?_
  exact map_entry_children q.1 q.2

end Placement

namespace Site

def entry (x : Site) : String × String × Definition := (x.name, x.path, x.definition)

theorem path_inside (x : Site) (name : String) (d : Definition) :
    (Site.mk x.trail name d).path = x.path ++ "/" ++ name := by
  show "/".intercalate (x.trail ++ [name]) = _
  rw [String.intercalate_append_of_ne_nil (by simp [trail]) (by simp),
    String.intercalate_singleton]
  rfl

theorem map_entry_children (x : Site) :
    x.children.map entry = Placement.entriesInside x.entry := by
  simp [children, ofSiblings, Placement.entriesInside, entry, path_inside]

end Site

namespace Placement

theorem map_entry_levelsFrom (d : Document) (n first k : Nat) {level : List Placement}
    (hlevel : level.map entry = (d.sites.filter (·.depth = k)).map Site.entry) :
    (levelsFrom n first level).map entry =
      ((List.range' k n).flatMap fun i => d.sites.filter (·.depth = i)).map Site.entry := by
  induction n generalizing first k level with
  | zero => rfl
  | succ n ih =>
    have hnext : (nextLevel first level).map entry =
        (d.sites.filter (·.depth = k + 1)).map Site.entry := by
      have hk : ([] : List String).length ≤ k := Nat.zero_le k
      have hsucc := Definition.filter_sitesBelow_succ d.gates hk
      rw [Document.sites, hsucc, map_entry_nextLevel, hlevel, List.map_flatMap, List.flatMap_map]
      exact List.flatMap_congr fun x _ => (Site.map_entry_children x).symm
    rw [levelsFrom, List.range'_succ, List.flatMap_cons, List.map_append, List.map_append, hlevel,
      ih (first + level.length) (k + 1) hnext]

/-- The placements of a document are its sites by depth. -/
theorem map_entry_ofDocument (d : Document) :
    (ofDocument d).map entry = d.sitesByDepth.map Site.entry := by
  have htop : (ofSiblings none d.gates).map entry =
      (d.sites.filter (·.depth = 0)).map Site.entry := by
    have hself := Definition.filter_sitesBelow_self d.gates []
    rw [Document.sites, ← List.length_nil (α := String), hself]
    simp [ofSiblings, Site.ofSiblings, entry, Site.entry, pathBelow, Site.path, Site.trail]
  rw [ofDocument, map_entry_levelsFrom d _ 0 0 htop, Document.sitesByDepth_eq_levels,
    List.range_eq_range']

/-! ## The equation of the placements -/

theorem height_le_of_mem {name : String} {d : Definition} {siblings : List (String × Definition)}
    (hd : (name, d) ∈ siblings) : d.height ≤ Definition.heights siblings := by
  induction siblings with
  | nil => cases hd
  | cons entry rest ih =>
    rw [Definition.heights]
    rcases List.mem_cons.mp hd with rfl | hd
    · exact Nat.le_max_left _ _
    · exact Nat.le_trans (ih hd) (Nat.le_max_right _ _)

theorem height_eq (d : Definition) : d.height = Definition.heights d.children + 1 := by
  cases d
  rfl

theorem of_mem_children {p q : Placement} {id : Nat} (hq : q ∈ p.children id) :
    (q.name, q.definition) ∈ p.definition.children ∧ q.container = some id ∧
      q.path = p.path ++ "/" ++ q.name := by
  obtain ⟨entry, hentry, rfl⟩ := List.mem_map.mp hq
  exact ⟨hentry, rfl, rfl⟩

/-- With enough levels, a level is followed by what is inside all that comes. -/
theorem levelsFrom_eq {n first : Nat} {level : List Placement}
    (hn : ∀ p ∈ level, p.definition.height ≤ n) :
    levelsFrom n first level =
      level ++ ((levelsFrom n first level).zipIdx first).flatMap fun q => q.1.children q.2 := by
  -- Every level is less high than the one above, so there are levels for all of them.
  induction n generalizing first level with
  | zero =>
    have hnil : level = [] := by
      rw [List.eq_nil_iff_forall_not_mem]
      intro p hp
      have hheight := hn p hp
      rw [height_eq] at hheight
      omega
    rw [hnil]
    rfl
  | succ n ih =>
    have hnext : ∀ q ∈ nextLevel first level, q.definition.height ≤ n := by
      intro q hq
      obtain ⟨⟨p, id⟩, hp, hq⟩ := List.mem_flatMap.mp hq
      have hheight := hn p (List.fst_mem_of_mem_zipIdx hp)
      have hbelow := height_le_of_mem (of_mem_children hq).1
      rw [height_eq] at hheight
      omega
    have hrest : levelsFrom n (first + level.length) (nextLevel first level) = _ := ih hnext
    rw [levelsFrom, List.zipIdx_append, List.flatMap_append]
    conv_lhs => rw [hrest]
    rfl

/-- The placements of a document: those at the top, followed by what is inside each placement. -/
theorem ofDocument_eq (d : Document) :
    ofDocument d = ofSiblings none d.gates ++
      (ofDocument d).zipIdx.flatMap fun q => q.1.children q.2 := by
  refine levelsFrom_eq fun p hp => ?_
  obtain ⟨entry, hentry, rfl⟩ := List.mem_map.mp hp
  exact height_le_of_mem hentry

/-- Containers come first. -/
theorem container_lt_levelsFrom {n first : Nat} {level : List Placement}
    (hlevel : ∀ p ∈ level, ∀ c, p.container = some c → c < first) {p : Placement} {i c : Nat}
    (hp : (levelsFrom n first level)[i]? = some p) (hc : p.container = some c) : c < first + i := by
  induction n generalizing first level i with
  | zero => cases hp
  | succ n ih =>
    rw [levelsFrom, List.getElem?_append] at hp
    split at hp
    · have hlt := hlevel p (List.mem_of_getElem? hp) c hc
      omega
    · have hnext : ∀ q ∈ nextLevel first level, ∀ c, q.container = some c →
          c < first + level.length := by
        intro q hq c hc
        obtain ⟨⟨p, id⟩, hp, hq⟩ := List.mem_flatMap.mp hq
        rw [(of_mem_children hq).2.1] at hc
        cases hc
        exact List.snd_lt_add_of_mem_zipIdx hp
      have hlt := ih hnext hp
      omega

theorem container_lt {d : Document} {p : Placement} {i c : Nat}
    (hp : (ofDocument d)[i]? = some p) (hc : p.container = some c) : c < i := by
  have hlt := container_lt_levelsFrom (fun q hq c hc => ?_) hp hc
  · omega
  · obtain ⟨entry, -, rfl⟩ := List.mem_map.mp hq
    cases hc

end Placement
end FeatureGates
