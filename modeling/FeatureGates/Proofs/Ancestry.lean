import FeatureGates.Proofs.Lookup

/-!
What paths tell about gates.  A path has the names from the root down to a gate between its slashes,
and no two gates share a path, whatever the case of its letters.  So one gate is around another,
however far out, just when its path and a slash begin the other's path, case apart.  The slash
matters: names may begin with other names.
-/

namespace FeatureGates
namespace Hierarchy

/-- Gate `a` is around gate `b`, or around a gate that is around it. -/
def Encloses (h : Hierarchy) : Gate → Gate → Prop :=
  Relation.TransGen fun c g => h.around? g = some c

/-- The way down to a gate is the only one. -/
theorem Trail.unique {h : Hierarchy} {g : Gate} {names names' : List String}
    (htrail : h.Trail g names) (htrail' : h.Trail g names') : names = names' := by
  induction htrail generalizing names' with
  | root hroot =>
    cases htrail' with
    | root _ => rfl
    | inside hid _ _ => simp [hroot] at hid
  | inside hid hc _ ih =>
    cases htrail' with
    | root hroot => simp [hroot] at hid
    | inside hid' hc' hnames =>
      rw [hid] at hid'
      cases hid'
      rw [hc] at hc'
      cases hc'
      rw [ih hnames]

section

variable {h : Hierarchy} {d : Document} (hd : h.gates = d.toGates)
include hd

theorem path_of_root {g : Gate} (hg : g ∈ h.gates) (hroot : g.container = none) :
    g.path = g.name := by
  rcases around?_cases hd hg with ⟨-, hpath⟩ | ⟨c, hc, -⟩
  · exact hpath
  · rw [around?, hroot] at hc
    cases hc

theorem path_of_around {g c : Gate} (hg : g ∈ h.gates) (hc : h.around? g = some c) :
    g.path = c.path ++ "/" ++ g.name := by
  rcases around?_cases hd hg with ⟨hroot, -⟩ | ⟨c', hc', hpath⟩
  · rw [around?, hroot] at hc
    cases hc
  · rw [hc] at hc'
    cases hc'
    exact hpath

variable (hvalid : d.Valid)
include hvalid

/-- Between the slashes of its path are the names that lead to a gate. -/
theorem splitOn_path {g : Gate} (hg : g ∈ h.gates) {names : List String}
    (htrail : h.Trail g names) : g.path.toList.splitOn '/' = names.map String.toList := by
  obtain ⟨names', htrail', hpath⟩ := exists_trail hd hg
  cases htrail'.unique htrail
  rw [hpath]
  exact splitOn_intercalate_slash (fun name hname =>
    (wellFormed_of_trail hd hvalid hg htrail name hname).slash_not_mem) htrail.ne_nil

theorem trail_iff_splitOn {g : Gate} (hg : g ∈ h.gates) (names : List String) :
    h.Trail g names ↔ g.path.toList.splitOn '/' = names.map String.toList := by
  refine ⟨splitOn_path hd hvalid hg, fun hsplit => ?_⟩
  obtain ⟨names', htrail, -⟩ := exists_trail hd hg
  rw [splitOn_path hd hvalid hg htrail] at hsplit
  rwa [← map_toList_inj hsplit]

theorem isAscii_path {g : Gate} (hg : g ∈ h.gates) : Text.isAscii g.path = true := by
  obtain ⟨names, htrail, hpath⟩ := exists_trail hd hg
  rw [hpath]
  exact (Text.fold_intercalate_of_ascii rfl fun name hname =>
    (wellFormed_of_trail hd hvalid hg htrail name hname).isAscii).1

theorem slash_not_mem_fold_name {g : Gate} (hg : g ∈ h.gates) :
    '/' ∉ (Text.fold g.name).toList :=
  have hname := wellFormed_name hd hvalid hg
  Text.slash_not_mem_fold hname.isAscii hname.slash_not_mem

/-- Without regard to case, the path of a gate is the path of the gate around it, a slash and its
name. -/
theorem fold_path_of_around {g c : Gate} (hg : g ∈ h.gates) (hc : h.around? g = some c) :
    (Text.fold g.path).toList =
      (Text.fold c.path).toList ++ '/' :: (Text.fold g.name).toList := by
  have hc' := isAscii_path hd hvalid (mem_of_around? hc)
  have hascii : Text.isAscii (c.path ++ "/") = true := by
    rw [Text.isAscii_append, hc']
    rfl
  rw [path_of_around hd hg hc,
    Text.fold_append_of_ascii hascii (wellFormed_name hd hvalid hg).isAscii,
    Text.fold_append_of_ascii hc' rfl, String.toList_append, String.toList_append,
    List.append_assoc]
  rfl

theorem fold_path_of_encloses {a b : Gate} (hb : b ∈ h.gates) (hab : h.Encloses a b) :
    ∃ below, (Text.fold b.path).toList = (Text.fold a.path).toList ++ '/' :: below := by
  induction hab with
  | single hab => exact ⟨_, fold_path_of_around hd hvalid hb hab⟩
  | @tail c b _ hcb ih =>
    obtain ⟨below, hbelow⟩ := ih (mem_of_around? hcb)
    refine ⟨below ++ '/' :: (Text.fold b.name).toList, ?_⟩
    rw [fold_path_of_around hd hvalid hb hcb, hbelow, List.append_assoc]
    rfl

theorem encloses_of_fold_path {a b : Gate} (ha : a ∈ h.gates) (hb : b ∈ h.gates)
    {below : List Char}
    (hpath : (Text.fold b.path).toList = (Text.fold a.path).toList ++ '/' :: below) :
    h.Encloses a b := by
  obtain ⟨names, htrail, -⟩ := exists_trail hd hb
  -- The induction goes up from `b`: either the path of the gate around it is that of `a`, or `a` is
  -- found further out.
  induction htrail generalizing below with
  | @root b hroot =>
    refine absurd ?_ (slash_not_mem_fold_name hd hvalid hb)
    rw [← path_of_root hd hb hroot, hpath]
    simp
  | @inside b c id names hid hc _ ih =>
    have hcb : h.around? b = some c := by rw [around?, hid]; exact hc
    have hcg := mem_of_around? hcb
    rw [fold_path_of_around hd hvalid hb hcb, eq_comm] at hpath
    rcases Text.append_cons_eq_append_cons_iff.mp hpath with ⟨hsame, -⟩ | ⟨r, hout, -⟩ |
      ⟨r, -, hname⟩
    · have hca : a = c := List.inj_on_of_nodup_map (nodup_foldedPaths hd hvalid) ha hcg
        (String.toList_inj.mp hsame)
      exact Relation.TransGen.single (hca ▸ hcb)
    · exact (ih hcg hout).tail hcb
    · refine absurd ?_ (slash_not_mem_fold_name hd hvalid hb)
      rw [hname]
      simp

theorem encloses_iff_prefix {a b : Gate} (ha : a ∈ h.gates) (hb : b ∈ h.gates) :
    h.Encloses a b ↔ (Text.fold a.path ++ "/").toList <+: (Text.fold b.path).toList := by
  have hslash : (Text.fold a.path ++ "/").toList = (Text.fold a.path).toList ++ ['/'] :=
    String.toList_append
  rw [hslash]
  constructor
  · intro hab
    obtain ⟨below, hbelow⟩ := fold_path_of_encloses hd hvalid hb hab
    exact ⟨below, by rw [hbelow, List.append_assoc]; rfl⟩
  · rintro ⟨below, hbelow⟩
    rw [List.append_assoc] at hbelow
    exact encloses_of_fold_path hd hvalid ha hb hbelow.symm

end

/-- Paths tell the gates of a hierarchy apart, and which of them are around which. -/
structure ToldByPaths (h : Hierarchy) : Prop where
  distinct : (h.gates.map fun g => Text.fold g.path).Nodup
  /-- Between the slashes are the names from the root down to the gate. -/
  trail : ∀ g ∈ h.gates, ∀ names,
    h.Trail g names ↔ g.path.toList.splitOn '/' = names.map String.toList
  encloses : ∀ a ∈ h.gates, ∀ b ∈ h.gates,
    h.Encloses a b ↔ (Text.fold a.path ++ "/").toList <+: (Text.fold b.path).toList

theorem paths_tell_gates {h : Hierarchy} (hl : h.Loaded) : h.ToldByPaths := by
  obtain ⟨d, hd, hvalid⟩ := hl.exists_valid
  exact ⟨nodup_foldedPaths hd hvalid, fun g hg => trail_iff_splitOn hd hvalid hg,
    fun a ha b hb => encloses_iff_prefix hd hvalid ha hb⟩

/-- A name that comes back further in and begins others. -/
def branching : Document where
  gates := [
    ("web", { children := [
      ("shop", { children := [("Web", { children := [("SHOP", {})] })] }),
      ("shop-new", { children := [("shop", {})] })] }),
    ("web.shop", {})]

theorem paths_tell_gates_branching :
    let h : Hierarchy := { gates := branching.toGates }
    h.Loaded ∧ h.ToldByPaths ∧ ∃ shop ∈ h.gates, h.Trail shop ["web", "shop"] ∧
      ∀ b ∈ h.gates, h.Encloses shop b ↔ b.path ∈ ["web/shop/Web", "web/shop/Web/SHOP"] := by
  intro h
  have hl : h.Loaded := ⟨branching, rfl⟩
  have htold := paths_tell_gates hl
  have hshop : h.gates[2] ∈ h.gates := List.getElem_mem _
  refine ⟨hl, htold, h.gates[2], hshop, (htold.trail _ hshop _).mpr (by decide +kernel),
    fun b hb => ?_⟩
  rw [htold.encloses _ hshop b hb]
  revert b
  decide +kernel

end Hierarchy
end FeatureGates
