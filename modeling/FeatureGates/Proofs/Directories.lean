import FeatureGates.Directory
import Mathlib.Data.List.Nodup
import Mathlib.Data.String.Basic
import Mathlib.Order.Bounds.Basic

/-!
Laws of directories.  A directory is told by what is found in it under every name, and that is all
that matters of the order in which entries were put in, except that the last of one name counts.
-/

namespace FeatureGates
namespace Directory

variable {α β γ : Type}

theorem map_map (d : Directory α) (f : String → α → β) (g : String → β → γ) :
    (d.map f).map g = d.map fun name x => g name (f name x) :=
  ext_entries List.map_map

theorem map_congr {d : Directory α} {f g : String → α → β}
    (h : ∀ e ∈ d.entries, f e.1 e.2 = g e.1 e.2) : d.map f = d.map g := by
  refine ext_entries (List.map_congr_left fun e he => ?_)
  rw [h e he]

theorem map_eq_self {d : Directory α} {f : String → α → α} (h : ∀ e ∈ d.entries, f e.1 e.2 = e.2) :
    d.map f = d := by
  have hsame : d.map f = d.map fun _ x => x := map_congr h
  exact hsame.trans (ext_entries (List.map_id' _))

theorem place_of_mem {name : String} {value : α} {l : List (String × α)}
    (hl : l.Pairwise fun a b => a.1 < b.1) (hname : ∃ e ∈ l, e.1 = name) :
    place name value l = l.map fun e => (e.1, if e.1 = name then value else e.2) := by
  induction l with
  | nil =>
    obtain ⟨e, he, -⟩ := hname
    cases he
  | cons first rest ih =>
    obtain ⟨hfirst, hrest⟩ := List.pairwise_cons.mp hl
    obtain ⟨e, he, hename⟩ := hname
    rw [place, List.map_cons]
    split
    · -- All names in the list come after this one, which is one of them.
      rename_i hlt
      rcases List.mem_cons.mp he with rfl | he
      · exact absurd (hename ▸ hlt) (String.lt_irrefl name)
      · exact absurd (String.lt_trans hlt (hename ▸ hfirst e he)) (String.lt_irrefl name)
    · split
      · rename_i hgt
        have hne : first.1 ≠ name := by
          intro h
          exact String.lt_irrefl name (h ▸ hgt)
        rcases List.mem_cons.mp he with rfl | he
        · exact absurd hename hne
        · rw [if_neg hne, ih hrest ⟨e, he, hename⟩]
      · rename_i hlt hgt
        have hsame : first.1 = name := (eq_of_not_lt hlt hgt).symm
        have hothers : rest.map (fun e => (e.1, if e.1 = name then value else e.2)) = rest := by
          refine (List.map_congr_left fun e he => ?_).trans (List.map_id' rest)
          have hne : e.1 ≠ name := by
            intro h
            have hlt := hfirst e he
            rw [hsame, h] at hlt
            exact String.lt_irrefl name hlt
          rw [if_neg hne]
        rw [hothers, if_pos hsame, hsame]

theorem insert_of_mem {d : Directory α} {name : String} (value : α)
    (hname : ∃ e ∈ d.entries, e.1 = name) :
    d.insert name value = d.map fun other x => if other = name then value else x :=
  ext_entries (place_of_mem d.ascending hname)

/-! ## What is found under a name -/

theorem distinct_names (d : Directory α) : d.entries.Pairwise fun a b => a.1 ≠ b.1 :=
  d.ascending.imp ne_of_lt

theorem eq_of_mem {d : Directory α} {a b : String × α} (ha : a ∈ d.entries) (hb : b ∈ d.entries)
    (hname : a.1 = b.1) : a = b :=
  List.inj_on_of_nodup_map (List.pairwise_map.mpr d.distinct_names) ha hb hname

theorem find?_eq_some_iff {d : Directory α} {name : String} {value : α} :
    d.find? name = some value ↔ (name, value) ∈ d.entries := by
  rw [find?, Option.map_eq_some_iff]
  constructor
  · intro h
    obtain ⟨e, he, rfl⟩ := h
    obtain rfl : e.1 = name := by simpa using List.find?_some he
    exact List.mem_of_find?_eq_some he
  · intro h
    have hsome : (d.entries.find? (·.1 = name)).isSome := List.find?_isSome.mpr ⟨_, h, by simp⟩
    obtain ⟨e, he⟩ := Option.isSome_iff_exists.mp hsome
    have hname : e.1 = name := by simpa using List.find?_some he
    exact ⟨e, he, congrArg Prod.snd (eq_of_mem (List.mem_of_find?_eq_some he) h hname)⟩

theorem mem_names_iff {d : Directory α} {name : String} :
    name ∈ d.names ↔ ∃ value, d.find? name = some value := by
  simp only [find?_eq_some_iff, names, List.mem_map, Prod.exists, exists_and_right, exists_eq_right]

theorem mem_names_insert {d : Directory α} {name other : String} {value : α} :
    other ∈ (d.insert name value).names ↔ other = name ∨ other ∈ d.names := by
  rw [mem_names_iff, find?_insert]
  by_cases hname : name = other
  · rw [if_pos hname]
    exact ⟨fun _ => Or.inl hname.symm, fun _ => ⟨value, rfl⟩⟩
  · rw [if_neg hname, ← mem_names_iff]
    exact ⟨Or.inr, fun h => h.resolve_left (Ne.symm hname)⟩

/-- Directories in which the same is found under every name are the same. -/
theorem ext_find? {d e : Directory α} (h : ∀ name, d.find? name = e.find? name) : d = e := by
  have hmem : ∀ entry, entry ∈ d.entries ↔ entry ∈ e.entries := by
    intro entry
    rw [← find?_eq_some_iff (d := d), h, find?_eq_some_iff]
  have hd : d.entries.Nodup := d.distinct_names.imp fun hne heq => hne (congrArg Prod.fst heq)
  have he : e.entries.Nodup := e.distinct_names.imp fun hne heq => hne (congrArg Prod.fst heq)
  refine ext_entries (List.Perm.eq_of_pairwise (fun a b _ _ hab hba => ?_) d.ascending e.ascending
    ((List.perm_ext_iff_of_nodup hd he).mpr hmem))
  exact absurd hba (String.lt_asymm hab)

theorem find?_filter (d : Directory α) (p : String → Bool) (name : String) :
    (d.filter fun other _ => p other).find? name = if p name then d.find? name else none := by
  ext value
  rw [find?_eq_some_iff]
  show (name, value) ∈ d.entries.filter (fun entry => p entry.1) ↔ _
  rw [List.mem_filter, ← find?_eq_some_iff]
  by_cases hp : p name = true <;> simp [hp]

/-- The first entry with a name of some kind is the one with the least name of this kind. -/
theorem find?_entries_eq_some_iff {d : Directory α} {p : String → Bool} {e : String × α} :
    d.entries.find? (fun entry => p entry.1) = some e ↔
      e ∈ d.entries ∧ IsLeast {name | name ∈ d.names ∧ p name = true} e.1 := by
  rw [List.find?_eq_some_iff_append]
  constructor
  · intro h
    obtain ⟨hp, before, rest, hentries, hbefore⟩ := h
    have he : e ∈ d.entries := hentries ▸ List.mem_append_right _ List.mem_cons_self
    refine ⟨he, ⟨List.mem_map_of_mem he, hp⟩, fun name hname => ?_⟩
    obtain ⟨other, hother, rfl⟩ := List.mem_map.mp hname.1
    rw [hentries] at hother
    rcases List.mem_append.mp hother with hearlier | hlater
    · have hfails := hbefore other hearlier
      rw [hname.2] at hfails
      cases hfails
    · have hascending := (List.pairwise_append.mp (hentries ▸ d.ascending)).2.1
      rcases List.mem_cons.mp hlater with rfl | hlater
      · exact le_rfl
      · exact le_of_lt ((List.pairwise_cons.mp hascending).1 other hlater)
  · intro h
    obtain ⟨he, ⟨-, hp⟩, hleast⟩ := h
    obtain ⟨before, rest, hentries⟩ := List.append_of_mem he
    refine ⟨hp, before, rest, hentries, fun other hother => ?_⟩
    have hlt : other.1 < e.1 :=
      (List.pairwise_append.mp (hentries ▸ d.ascending)).2.2 other hother e List.mem_cons_self
    have hmem : other ∈ d.entries := hentries ▸ List.mem_append_left _ hother
    cases hkind : p other.1 with
    | false => rfl
    | true => exact absurd hlt (not_lt_of_ge (hleast ⟨List.mem_map_of_mem hmem, hkind⟩))

/-- Insertions one after another. -/
def insertAll (d : Directory α) (l : List (String × α)) : Directory α :=
  l.foldl (fun d entry => d.insert entry.1 entry.2) d

/-- The entries of both, where those of `e` win. -/
def union (d e : Directory α) : Directory α := d.insertAll e.entries

theorem find?_insertAll {l : List (String × α)} (hl : l.Pairwise fun a b => a.1 ≠ b.1)
    (d : Directory α) (name : String) :
    (d.insertAll l).find? name = ((l.find? (·.1 = name)).map (·.2)).or (d.find? name) := by
  induction l generalizing d with
  | nil => rfl
  | cons entry rest ih =>
    obtain ⟨hothers, hrest⟩ := List.pairwise_cons.mp hl
    show ((d.insert entry.1 entry.2).insertAll rest).find? name = _
    rw [ih hrest, find?_insert, List.find?_cons]
    by_cases hname : entry.1 = name
    · have hnone : rest.find? (·.1 = name) = none :=
        List.find?_eq_none.mpr fun e he => by simpa [← hname] using (hothers e he).symm
      simp [hname, hnone]
    · simp [hname]

theorem find?_union (d e : Directory α) (name : String) :
    (d.union e).find? name = (e.find? name).or (d.find? name) :=
  find?_insertAll e.distinct_names d name

theorem empty_union (d : Directory α) : empty.union d = d := by
  refine ext_find? fun name => (find?_union empty d name).trans ?_
  rw [show empty.find? name = (none : Option α) from rfl, Option.or_none]

theorem mem_names_union {d e : Directory α} {name : String} :
    name ∈ (d.union e).names ↔ name ∈ d.names ∨ name ∈ e.names := by
  simp only [mem_names_iff, find?_union, ← Option.isSome_iff_exists, Option.isSome_or,
    Bool.or_eq_true]
  exact or_comm

end Directory
end FeatureGates
