import FeatureGates.Proofs.Queue

/-!
Lookup by name in terms of the document.

Any number of gates may have one name, ignoring case, as long as no two of them are siblings.  The
gates go by depth, and within one depth in document order, so the one that is found is the least
deep, and the first in the document among those.  Each of the others is noticed when the hierarchy
is loaded.
-/

namespace FeatureGates

/-! ## The first of a sorted list -/

section Key

variable {α : Type} {key : α → Nat} {p : α → Bool}

theorem least_of_find? {l : List α} {x : α} (hsorted : l.Pairwise fun y z => key y ≤ key z)
    (hx : l.find? p = some x) :
    (∀ y ∈ l, p y = true → key x ≤ key y) ∧ (l.filter (key · = key x)).find? p = some x := by
  obtain ⟨hpx, before, after, rfl, hbefore⟩ := List.find?_eq_some_iff_append.mp hx
  have hbefore' : ∀ y ∈ before, p y ≠ true := fun y hy => by simpa using hbefore y hy
  have hafter := (List.pairwise_cons.mp (List.pairwise_append.mp hsorted).2.1).1
  refine ⟨fun y hy hpy => ?_, ?_⟩
  · rcases List.mem_append.mp hy with hy | hy
    · exact absurd hpy (hbefore' y hy)
    · rcases List.mem_cons.mp hy with rfl | hy
      · exact Nat.le_refl _
      · exact hafter y hy
  · have hnone : (before.filter (key · = key x)).find? p = none := by
      rw [List.find?_eq_none]
      exact fun y hy => hbefore' y (List.mem_filter.mp hy).1
    rw [List.filter_append, List.find?_append, hnone, List.filter_cons_of_pos (by simp),
      List.find?_cons_of_pos hpx]
    rfl

/-- In a list sorted by a key, what is found has the least key, and is the first with that key. -/
theorem find?_eq_some_iff_of_sorted {l : List α} {x : α}
    (hsorted : l.Pairwise fun y z => key y ≤ key z) :
    l.find? p = some x ↔
      (∀ y ∈ l, p y = true → key x ≤ key y) ∧ (l.filter (key · = key x)).find? p = some x := by
  refine ⟨least_of_find? hsorted, fun ⟨hleast, hx⟩ => ?_⟩
  obtain ⟨hxl, -⟩ := List.mem_filter.mp (List.mem_of_find?_eq_some hx)
  have hpx := List.find?_some hx
  obtain ⟨z, hz⟩ := Option.isSome_iff_exists.mp (List.find?_isSome.mpr ⟨x, hxl, hpx⟩)
  obtain ⟨hleast', hz'⟩ := least_of_find? hsorted hz
  have hsame : key z = key x := Nat.le_antisymm (hleast' x hxl hpx)
    (hleast z (List.mem_of_find?_eq_some hz) (List.find?_some hz))
  rw [hsame, hx] at hz'
  rw [hz, hz']

/-- What is found after a stable sort, told by its place in the list before. -/
theorem find?_mergeSort_eq_some_iff {l : List α} {x : α} :
    (l.mergeSort fun y z => key y ≤ key z).find? p = some x ↔
      p x = true ∧ ∃ before after, l = before ++ x :: after ∧
        (∀ y ∈ before, p y = true → key x < key y) ∧
        ∀ y ∈ after, p y = true → key x ≤ key y := by
  have hsorted := List.pairwise_mergeSort (key_le_trans key) (key_le_total key) l
  rw [find?_eq_some_iff_of_sorted (hsorted.imp of_decide_eq_true), filter_mergeSort,
    List.find?_filter, List.find?_eq_some_iff_append]
  simp only [List.mem_mergeSort]
  constructor
  · rintro ⟨hleast, hpx, before, after, rfl, hbefore⟩
    have hpx' : p x = true := by simpa using hpx
    refine ⟨hpx', before, after, rfl, fun y hy hpy => ?_, fun y hy hpy => ?_⟩
    · have hle := hleast y (by simp [hy]) hpy
      have hne : key y ≠ key x := by
        intro heq
        have hnot := hbefore y hy
        simp [heq, hpy] at hnot
      omega
    · exact hleast y (by simp [hy]) hpy
  · rintro ⟨hpx, before, after, rfl, hbefore, hafter⟩
    refine ⟨fun y hy hpy => ?_, by simpa using hpx, before, after, rfl, fun y hy => ?_⟩
    · rcases List.mem_append.mp hy with hy | hy
      · exact Nat.le_of_lt (hbefore y hy hpy)
      · rcases List.mem_cons.mp hy with rfl | hy
        · exact Nat.le_refl _
        · exact hafter y hy hpy
    · by_cases hpy : p y = true
      · have hlt := hbefore y hy hpy
        have hne : key y ≠ key x := by omega
        simp [hne]
      · simp [hpy]

end Key

/-! ## Gates and sites -/

/-- What a gate says of its site. -/
def Gate.description (g : Gate) : String × String × Option String × List Filter :=
  (g.name, g.path, g.group, g.filters)

def Site.description (x : Site) : String × String × Option String × List Filter :=
  (x.name, x.path, x.definition.group, x.definition.filters)

/-- Of the sites with a name, ignoring case, the least deep, and of those the first in the
document. -/
def Document.Foremost (d : Document) (name : String) (x : Site) : Prop :=
  Text.fold x.name = Text.fold name ∧ ∃ before after, d.sites = before ++ x :: after ∧
    (∀ y ∈ before, Text.fold y.name = Text.fold name → x.depth < y.depth) ∧
    ∀ y ∈ after, Text.fold y.name = Text.fold name → x.depth ≤ y.depth

theorem Document.foremost_iff {d : Document} {name : String} {x : Site} :
    d.Foremost name x ↔
      d.sitesByDepth.find? (fun y => Text.fold y.name = Text.fold name) = some x := by
  rw [Document.sitesByDepth, find?_mergeSort_eq_some_iff]
  simp only [decide_eq_true_eq]
  rfl

namespace Hierarchy

/-- The gate that was made from a site. -/
structure StandsFor (h : Hierarchy) (g : Gate) (x : Site) : Prop where
  mem : g ∈ h.gates
  name : g.name = x.name
  trail : h.Trail g x.trail
  path : g.path = x.path
  group : g.group = x.definition.group
  filters : g.filters = x.definition.filters

theorem names_of_trail {h : Hierarchy} {g : Gate} {names : List String} (htrail : h.Trail g names)
    (hg : g ∈ h.gates) : ∀ name ∈ names, ∃ c ∈ h.gates, c.name = name := by
  induction htrail with
  | root => simpa using ⟨_, hg, rfl⟩
  | inside hid hc hnames ih =>
    intro name hname
    rcases List.mem_append.mp hname with hname | hname
    · exact ih (List.mem_of_getElem? hc) name hname
    · exact ⟨_, hg, (List.mem_singleton.mp hname).symm⟩

section

variable {h : Hierarchy} {d : Document} (hd : h.gates = d.toGates)
include hd

theorem map_description : h.gates.map Gate.description = d.sitesByDepth.map Site.description :=
  map_gates_eq hd

/-- Lookup among the gates and among the sites by depth find the same. -/
theorem named?_eq_site (name : String) : (h.named? name).map Gate.description =
    (d.sitesByDepth.find? fun x => Text.fold x.name = Text.fold name).map Site.description := by
  have hfind := congrArg (List.find? fun t => decide (Text.fold t.1 = Text.fold name))
    (map_description hd)
  rw [List.find?_map, List.find?_map] at hfind
  rw [named?_eq_find?]
  exact hfind

theorem exists_description {g : Gate} (hg : g ∈ h.gates) :
    ∃ x ∈ d.sites, g.description = x.description := by
  have hmem := List.mem_map_of_mem (f := Gate.description) hg
  rw [map_description hd] at hmem
  obtain ⟨x, hx, hxg⟩ := List.mem_map.mp hmem
  exact ⟨x, List.mem_mergeSort.mp hx, hxg.symm⟩

variable (hvalid : d.Valid)
include hvalid

theorem wellFormed_name {g : Gate} (hg : g ∈ h.gates) : WellFormedName g.name := by
  obtain ⟨x, hx, hgx⟩ := exists_description hd hg
  have hname : g.name = x.name := congrArg Prod.fst hgx
  have htrail := Definition.wellFormed_of_mem_trail hvalid.top hvalid.inside (by simp) hx
  exact hname ▸ htrail x.name (by simp [Site.trail])

theorem wellFormed_of_trail {g : Gate} (hg : g ∈ h.gates) {names : List String}
    (htrail : h.Trail g names) : ∀ name ∈ names, WellFormedName name := by
  intro name hname
  obtain ⟨c, hc, rfl⟩ := names_of_trail htrail hg name hname
  exact wellFormed_name hd hvalid hc

theorem standsFor_of_description {g : Gate} {x : Site} (hg : g ∈ h.gates) (hx : x ∈ d.sites)
    (hgx : g.description = x.description) : h.StandsFor g x := by
  simp only [Gate.description, Site.description, Prod.mk.injEq] at hgx
  obtain ⟨hname, hpath, hgroup, hfilters⟩ := hgx
  refine ⟨hg, hname, ?_, hpath, hgroup, hfilters⟩
  -- The path tells the names, since there are no slashes in them.
  obtain ⟨names, htrail, hnames⟩ := exists_trail hd hg
  have hslash : ∀ name ∈ names, '/' ∉ name.toList := fun name hname =>
    (wellFormed_of_trail hd hvalid hg htrail name hname).slash_not_mem
  have hslash' : ∀ name ∈ x.trail, '/' ∉ name.toList := fun name hname =>
    (Definition.wellFormed_of_mem_trail hvalid.top hvalid.inside (by simp) hx name
      hname).slash_not_mem
  have heq : names = x.trail := intercalate_slash_inj hslash hslash' htrail.ne_nil
    (by simp [Site.trail]) (hnames.symm.trans hpath)
  rwa [heq] at htrail

theorem existsUnique_site {g : Gate} (hg : g ∈ h.gates) :
    ∃! x, x ∈ d.sites ∧ h.StandsFor g x := by
  obtain ⟨x, hx, hgx⟩ := exists_description hd hg
  have hgx' := standsFor_of_description hd hvalid hg hx hgx
  refine ⟨x, ⟨hx, hgx'⟩, fun y ⟨hy, hgy⟩ => ?_⟩
  exact List.inj_on_of_nodup_map hvalid.nodup_paths hy hx (hgy.path.symm.trans hgx'.path)

theorem existsUnique_gate {x : Site} (hx : x ∈ d.sites) : ∃! g, h.StandsFor g x := by
  have hsorted : x ∈ d.sitesByDepth := List.mem_mergeSort.mpr hx
  have hmem := List.mem_map_of_mem (f := Site.description) hsorted
  rw [← map_description hd] at hmem
  obtain ⟨g, hg, hgx⟩ := List.mem_map.mp hmem
  have hgx' := standsFor_of_description hd hvalid hg hx hgx
  refine ⟨g, hgx', fun g' hg' => ?_⟩
  exact eq_of_path_eq hd hvalid hg'.mem hg (hg'.path.trans hgx'.path.symm)

/-- Lookup finds the gate of the foremost site with the name. -/
theorem named?_eq_some_iff {name : String} {g : Gate} :
    h.named? name = some g ↔ ∃ x, d.Foremost name x ∧ h.StandsFor g x := by
  have hsame := named?_eq_site hd name
  constructor
  · intro hg
    rw [hg, Option.map_some, eq_comm, Option.map_eq_some_iff] at hsame
    obtain ⟨x, hx, hxg⟩ := hsame
    have hmem := List.mem_mergeSort.mp (List.mem_of_find?_eq_some hx)
    exact ⟨x, Document.foremost_iff.mpr hx,
      standsFor_of_description hd hvalid (mem_of_named? hg) hmem hxg.symm⟩
  · rintro ⟨x, hx, hgx⟩
    rw [Document.foremost_iff.mp hx, Option.map_some, Option.map_eq_some_iff] at hsame
    obtain ⟨g', hg', hxg⟩ := hsame
    have hpath : g'.path = x.path := congrArg (·.2.1) hxg
    rw [hg', eq_of_path_eq hd hvalid (mem_of_named? hg') hgx.mem (hpath.trans hgx.path.symm)]

end

theorem named?_eq_none_iff {h : Hierarchy} {name : String} :
    h.named? name = none ↔ ∀ g ∈ h.gates, Text.fold g.name ≠ Text.fold name := by
  rw [named?_eq_find?, List.find?_eq_none]
  simp only [decide_eq_true_eq, ne_eq]

/-! ## Notices -/

/-- The name of the gate leads to another gate. -/
def IsShadowed (h : Hierarchy) (g : Gate) : Prop := ∃ winner ∈ h.named? g.name, winner.id ≠ g.id

instance (h : Hierarchy) : DecidablePred h.IsShadowed := fun g =>
  inferInstanceAs (Decidable (∃ winner ∈ h.named? g.name, winner.id ≠ g.id))

/-- The notice says which gate the name of a gate leads to. -/
def TellsShadow (h : Hierarchy) (g : Gate) (notice : Notice) : Prop :=
  ∃ winner, h.named? g.name = some winner ∧ winner ≠ g ∧
    notice = .shadowed g.path winner.path

theorem noteShadow_eq {h : Hierarchy} {g : Gate} : h.noteShadow g =
    match h.named? g.name with
    | some winner => if winner.id = g.id then pure () else note (.shadowed g.path winner.path)
    | none => pure () := by
  rw [named?, ← g.key_eq]
  rfl

theorem notices_noteShadow (h : Hierarchy) (g : Gate) :
    List.Forall₂ h.TellsShadow ([g].filter (h.IsShadowed ·)) (h.noteShadow g).notices := by
  rw [noteShadow_eq]
  cases hw : h.named? g.name with
  | none =>
    rw [List.filter_cons_of_neg (by simp [IsShadowed, hw])]
    exact List.Forall₂.nil
  | some winner =>
    by_cases hid : winner.id = g.id
    · rw [List.filter_cons_of_neg (by simp [IsShadowed, hw, hid])]
      simp only [hid, if_true]
      exact List.Forall₂.nil
    · rw [List.filter_cons_of_pos (by simp [IsShadowed, hw, hid])]
      simp only [hid, if_false]
      have htells : h.TellsShadow g (.shadowed g.path winner.path) :=
        ⟨winner, hw, fun heq => hid (congrArg Gate.id heq), rfl⟩
      exact List.Forall₂.cons htells List.Forall₂.nil

/-- An inspection that finds no fault has noticed every shadowed gate. -/
theorem notices_inspect {h : Hierarchy} {l : List (Gate × Placement)}
    (hok : (h.inspect l).answer = none) :
    List.Forall₂ h.TellsShadow ((l.map (·.1)).filter (h.IsShadowed ·)) (h.inspect l).notices := by
  induction l with
  | nil => exact List.Forall₂.nil
  | cons q rest ih =>
    obtain ⟨g, p⟩ := q
    rw [inspect] at hok ⊢
    cases hexposure : exposureFault? g.path g.filters with
    | some fault =>
      rw [hexposure] at hok
      cases hok
    | none =>
      simp only [hexposure, Noted.answer_bind] at hok ⊢
      cases hname : nameFault? (some g.path) [] p.definition.children with
      | some fault =>
        rw [hname] at hok
        cases hok
      | none =>
        simp only [hname] at hok ⊢
        rw [List.map_cons, ← List.singleton_append, List.filter_append]
        exact List.rel_append (notices_noteShadow h g) (ih hok)

/-- A document that is accepted has nothing noticed but its shadowed gates. -/
theorem notices_ofDocument {d : Document} {h : Hierarchy} (hd : (ofDocument d).answer = .ok h) :
    List.Forall₂ h.TellsShadow (h.gates.filter (h.IsShadowed ·)) (ofDocument d).notices := by
  have hsize : d.toGates.length = (Placement.ofDocument d).length :=
    Placement.length_number _ _ _
  unfold ofDocument at hd ⊢
  split at hd
  · cases hd
  · rw [Noted.answer_map] at hd
    split at hd
    · cases hd
    · rename_i hok
      cases hd
      have hnotices := notices_inspect hok
      rwa [List.map_fst_zip (Nat.le_of_eq hsize)] at hnotices

/-- The line in the log names the path of the gate and the path of the one that is found. -/
def LogsShadow (h : Hierarchy) (g : Gate) (line : LogLine) : Prop :=
  ∃ winner, h.named? g.name = some winner ∧ winner ≠ g ∧
    line = ⟨.warn, "gate '" ++ g.path ++ "' is shadowed by '" ++ winner.path ++
      "' for lookups by name"⟩

theorem logsShadow_of_tellsShadow {h : Hierarchy} {gates : List Gate} {notices : List Notice}
    (htells : List.Forall₂ h.TellsShadow gates notices) :
    List.Forall₂ h.LogsShadow gates (Notice.log notices) := by
  induction htells with
  | nil => exact List.Forall₂.nil
  | cons hfirst _ ih =>
    obtain ⟨winner, hw, hne, rfl⟩ := hfirst
    exact List.Forall₂.cons ⟨winner, hw, hne, rfl⟩ ih

/-! ## All lookups -/

/-- What names lead to in the hierarchy of a document, and what is said about it. -/
structure FindsForemost (h : Hierarchy) (d : Document) : Prop where
  numbered : h.Numbered
  /-- The gates are those of the document, one for each site. -/
  site : ∀ g ∈ h.gates, ∃! x, x ∈ d.sites ∧ h.StandsFor g x
  gate : ∀ x ∈ d.sites, ∃! g, h.StandsFor g x
  missing : ∀ name, h.named? name = none ↔ ∀ g ∈ h.gates, Text.fold g.name ≠ Text.fold name
  found : ∀ name g, h.named? name = some g ↔ ∃ x, d.Foremost name x ∧ h.StandsFor g x
  /-- Every shadowed gate is noticed once, in the order of the numbers, and nothing else is. -/
  noticed : List.Forall₂ h.TellsShadow (h.gates.filter (h.IsShadowed ·)) (ofDocument d).notices
  logged : List.Forall₂ h.LogsShadow (h.gates.filter (h.IsShadowed ·))
    (Notice.log (ofDocument d).notices)
  /-- It is the same where the document comes as a text. -/
  loaded : ∀ text, Document.parse? text = some d →
    (load text).answer = .ok { h with version := 0 } ∧
      (load text).notices = (ofDocument d).notices
  /-- It is the same where gates are taken from a queue and entered in an index. -/
  queued : (Draft.ofDocument d).notices = (ofDocument d).notices ∧
    ∃ s, (Draft.ofDocument d).answer = .ok s ∧ s.gates = h.gates ∧
      ∀ name, s.named? name = h.named? name

/-- Names lead to the least deep gates that have them, and of those to the first in the document. -/
theorem lookup_finds_foremost {d : Document} {h : Hierarchy}
    (hd : (ofDocument d).answer = .ok { h with version := 0 }) : h.FindsForemost d := by
  have hgates : h.gates = d.toGates := gates_of_ofDocument (h := { h with version := 0 }) hd
  have hvalid : d.Valid := (exists_ok_iff d).mp ⟨_, hd⟩
  have hnoticed : List.Forall₂ h.TellsShadow (h.gates.filter (h.IsShadowed ·))
      (ofDocument d).notices := notices_ofDocument (h := { h with version := 0 }) hd
  refine ⟨numbered_of_gates_eq hgates, fun _ => existsUnique_site hgates hvalid,
    fun _ => existsUnique_gate hgates hvalid, fun _ => named?_eq_none_iff,
    fun _ _ => named?_eq_some_iff hgates hvalid, hnoticed,
    logsShadow_of_tellsShadow hnoticed, fun text htext => ?_, ?_⟩
  · rw [load, htext]
    refine ⟨?_, rfl⟩
    show (ofDocument d).answer.mapError _ = _
    rw [hd]
    rfl
  · obtain ⟨hnotices, -, hok⟩ := Draft.ofDocument_agrees d
    obtain ⟨s, hs, hsame, -, hnamed⟩ := hok _ hd
    exact ⟨hnotices, s, hs, hsame, hnamed⟩

/-- Three names come back: deeper before it, beside it, and deeper before it again. -/
def repeated : Document where
  gates := [
    ("a", { children := [("b", { children := [("c", {})] }), ("d", {})] }),
    ("B", { children := [("D", {}), ("C", {})] })]

theorem lookup_finds_foremost_repeated :
    let h : Hierarchy := { gates := repeated.toGates }
    (ofDocument repeated).answer = .ok h ∧ h.FindsForemost repeated ∧
      ["b", "c", "d", "e"].map (fun name => (h.named? name).map (·.path)) =
        [some "B", some "B/C", some "a/d", none] ∧
      (ofDocument repeated).notices =
        [.shadowed "a/b" "B", .shadowed "B/D" "a/d", .shadowed "a/b/c" "B/C"] := by
  intro h
  have hd : (ofDocument repeated).answer = .ok h := rfl
  exact ⟨hd, lookup_finds_foremost hd, rfl, rfl⟩

end Hierarchy
end FeatureGates
