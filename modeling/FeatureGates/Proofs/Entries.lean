import FeatureGates.Text.Pieces
import Mathlib.Data.List.DropRight

/-!
Entries of comma-separated values.

An entry is found in a value without going through it from the front: it is what trimming leaves of
a stretch that has a comma or an end of the value on both sides and no comma inside.  Since a comma
between two values is such a side for both, the entries of values that are joined with commas are
the entries of the values, one after the other.
-/

namespace FeatureGates
namespace Text

/-! ## Trimming -/

/-- Neither end is blank. -/
structure BareEnds (cs : List Char) : Prop where
  first : ∀ c ∈ cs.head?, isBlank c = false
  last : ∀ c ∈ cs.getLast?, isBlank c = false

/-- What is left out of `cs` is blank and stands around `bare`, and no blank is left at its ends. -/
def TrimsTo (cs bare : List Char) : Prop :=
  BareEnds bare ∧ ∃ front back, cs = front ++ bare ++ back ∧
    (∀ c ∈ front, isBlank c = true) ∧ ∀ c ∈ back, isBlank c = true

theorem trimsTo_trimmed (cs : List Char) : TrimsTo cs (trimmed cs) := by
  show TrimsTo cs ((cs.dropWhile isBlank).rdropWhile isBlank)
  have hback : (cs.dropWhile isBlank).rdropWhile isBlank ++
      (cs.dropWhile isBlank).rtakeWhile isBlank = cs.dropWhile isBlank :=
    List.rdropWhile_append_rtakeWhile
  refine ⟨⟨fun c hc => ?_, fun c hc => ?_⟩, cs.takeWhile isBlank,
    (cs.dropWhile isBlank).rtakeWhile isBlank, ?_, fun c hc => List.mem_takeWhile_imp hc,
    fun c hc => List.mem_rtakeWhile_imp hc⟩
  · -- The first character was the first one before the end was trimmed.
    have hfirst := List.head?_dropWhile_not isBlank cs
    rw [← hback, List.head?_append, Option.mem_def.mp hc] at hfirst
    exact hfirst
  · obtain ⟨hne, rfl⟩ := List.mem_getLast?_eq_getLast hc
    exact Bool.eq_false_iff.mpr (List.rdropWhile_last_not _ _ hne)
  · rw [List.append_assoc, hback, List.takeWhile_append_dropWhile]

theorem trimmed_of_trimsTo {cs bare : List Char} (h : TrimsTo cs bare) : trimmed cs = bare := by
  obtain ⟨hends, front, back, rfl, hfront, hback⟩ := h
  show ((front ++ bare ++ back).dropWhile isBlank).rdropWhile isBlank = bare
  rw [List.append_assoc, List.dropWhile_append_of_pos hfront]
  cases bare with
  | nil =>
    have hall : back.dropWhile isBlank = [] := List.dropWhile_eq_nil_iff.mpr hback
    rw [List.nil_append, hall, List.rdropWhile_nil]
  | cons c rest =>
    have hc : isBlank c = false := hends.first c rfl
    have hlast : (c :: rest).rdropWhile isBlank = c :: rest :=
      List.rdropWhile_eq_self_iff.mpr fun hne =>
        Bool.eq_false_iff.mp (hends.last _ (List.getLast?_eq_getLast_of_ne_nil hne))
    have hreverse : ∀ c ∈ back.reverse, isBlank c = true := fun c hc =>
      hback c (List.mem_reverse.mp hc)
    rw [List.cons_append, List.dropWhile_cons_of_neg (Bool.eq_false_iff.mp hc), ← List.cons_append,
      List.rdropWhile, List.reverse_append, List.dropWhile_append_of_pos hreverse]
    exact hlast

theorem trimmed_eq_iff {cs bare : List Char} : trimmed cs = bare ↔ TrimsTo cs bare :=
  ⟨fun h => h ▸ trimsTo_trimmed cs, trimmed_of_trimsTo⟩

theorem nonBlank?_eq_some_iff {value text : String} :
    nonBlank? value = some text ↔ text ≠ "" ∧ TrimsTo value.toList text.toList := by
  rw [← trimmed_eq_iff, nonBlank?]
  cases htrim : trimmed value.toList with
  | nil => exact ⟨nofun, fun h => absurd (String.toList_inj.mp h.2.symm) h.1⟩
  | cons c rest =>
    rw [Option.some_inj, ← String.toList_inj, String.toList_ofList]
    refine ⟨fun h => ⟨?_, h⟩, fun h => h.2⟩
    rintro rfl
    exact List.cons_ne_nil c rest h

/-! ## Cutting -/

/-- A stretch between separators or ends of a text, without a separator inside. -/
def Stretch (separator : Char) (cs stretch : List Char) : Prop :=
  separator ∉ stretch ∧ ∃ before after, cs = before ++ stretch ++ after ∧
    (before = [] ∨ [separator] <:+ before) ∧ (after = [] ∨ [separator] <+: after)

variable {separator : Char}

theorem cut_of_notMem {cs : List Char} (h : separator ∉ cs) : cut separator cs = [cs] := by
  induction cs with
  | nil => rfl
  | cons c rest ih =>
    rw [List.mem_cons, not_or] at h
    rw [cut, if_neg (Ne.symm h.1), ih h.2]

theorem Stretch.of_mem_cut {cs stretch : List Char} (h : stretch ∈ cut separator cs) :
    Stretch separator cs stretch := by
  by_cases hsep : separator ∈ cs
  · obtain ⟨first, rest, rfl, hfirst⟩ := List.eq_append_cons_of_mem hsep
    rw [cut_append_cons, cut_of_notMem hfirst, List.singleton_append] at h
    rcases List.mem_cons.mp h with rfl | h
    · exact ⟨hfirst, [], separator :: rest, by simp, Or.inl rfl, Or.inr ⟨rest, rfl⟩⟩
    · obtain ⟨hnot, before, after, rfl, hbefore, hafter⟩ := of_mem_cut h
      refine ⟨hnot, first ++ separator :: before, after, by simp, Or.inr ?_, hafter⟩
      rcases hbefore with rfl | ⟨front, rfl⟩
      · exact ⟨first, rfl⟩
      · exact ⟨first ++ separator :: front, by simp⟩
  · rw [cut_of_notMem hsep] at h
    obtain rfl := List.mem_singleton.mp h
    exact ⟨hsep, [], [], by simp, Or.inl rfl, Or.inl rfl⟩
termination_by cs.length
decreasing_by simp +arith [*]

theorem Stretch.mem_cut {cs stretch : List Char} (h : Stretch separator cs stretch) :
    stretch ∈ cut separator cs := by
  obtain ⟨hnot, before, after, rfl, hbefore, hafter⟩ := h
  have hright : stretch ∈ cut separator (stretch ++ after) := by
    have hself : stretch ∈ cut separator stretch := by simp [cut_of_notMem hnot]
    rcases hafter with rfl | ⟨rest, rfl⟩
    · rwa [List.append_nil]
    · rw [List.singleton_append, cut_append_cons]
      exact List.mem_append_left _ hself
  rw [List.append_assoc]
  rcases hbefore with rfl | ⟨front, rfl⟩
  · exact hright
  · rw [List.append_assoc, List.singleton_append, cut_append_cons]
    exact List.mem_append_right _ hright

theorem cut_eq_splitOn (cs : List Char) : cut separator cs = cs.splitOn separator := by
  by_cases hsep : separator ∈ cs
  · obtain ⟨first, rest, rfl, hfirst⟩ := List.eq_append_cons_of_mem hsep
    have hnone : ∀ c ∈ first, (c == separator) = false := fun c hc =>
      beq_eq_false_iff_ne.mpr fun heq => hfirst (heq ▸ hc)
    rw [cut_append_cons, cut_of_notMem hfirst, cut_eq_splitOn rest,
      List.splitOn_append_cons_of_forall_mem_beq_eq_false hnone _ (beq_self_eq_true _)]
    rfl
  · have hself : ([separator].intercalate [cs]).splitOn separator = [cs] :=
      List.splitOn_intercalate separator (by simpa) (List.cons_ne_nil cs [])
    rw [List.intercalate_singleton] at hself
    rw [cut_of_notMem hsep, hself]
termination_by cs.length
decreasing_by simp +arith [*]

/-! ## Entries -/

/-- A trimmed stretch between commas that is not blank. -/
def IsEntry (value entry : String) : Prop :=
  entry ≠ "" ∧ ∃ stretch, Stretch ',' value.toList stretch ∧ TrimsTo stretch entry.toList

theorem mem_pieces_iff {value entry : String} : entry ∈ pieces value ↔ IsEntry value entry := by
  have hempty : ∀ cs : List Char, (!cs.isEmpty) = true ↔ String.ofList cs ≠ "" := by
    intro cs
    rw [Ne, ← String.toList_inj, String.toList_ofList]
    cases cs <;> simp
  simp only [pieces, List.mem_map, List.mem_filter, hempty]
  constructor
  · rintro ⟨cs, ⟨⟨stretch, hstretch, rfl⟩, hne⟩, rfl⟩
    refine ⟨hne, stretch, Stretch.of_mem_cut hstretch, ?_⟩
    rw [String.toList_ofList]
    exact trimsTo_trimmed stretch
  · rintro ⟨hne, stretch, hstretch, htrim⟩
    refine ⟨entry.toList, ⟨⟨stretch, hstretch.mem_cut, trimmed_of_trimsTo htrim⟩, ?_⟩,
      String.ofList_toList⟩
    rwa [String.ofList_toList]

theorem exists_entry_iff {values : List String} {p : String → Prop} :
    (∃ value ∈ values, ∃ entry, IsEntry value entry ∧ p entry) ↔
      ∃ entry ∈ values.flatMap pieces, p entry := by
  simp only [List.mem_flatMap, mem_pieces_iff]
  constructor
  · rintro ⟨value, hvalue, entry, hentry, hp⟩
    exact ⟨entry, ⟨value, hvalue, hentry⟩, hp⟩
  · rintro ⟨entry, ⟨value, hvalue, hentry⟩, hp⟩
    exact ⟨value, hvalue, entry, hentry, hp⟩

/-- What every entry of a list is like, wherever the list came from. -/
structure CleanEntry (entry : String) : Prop where
  not_empty : entry ≠ ""
  bare : BareEnds entry.toList
  no_comma : ',' ∉ entry.toList

theorem IsEntry.clean {value entry : String} (h : IsEntry value entry) : CleanEntry entry := by
  obtain ⟨hne, stretch, ⟨hnot, -⟩, hends, front, back, rfl, -, -⟩ := h
  exact ⟨hne, hends, fun hcomma => hnot (by simp [hcomma])⟩

/-! ## Entries in order -/

/-- What trimming leaves of stretches, one after the other.  Of a blank stretch nothing is left. -/
inductive Leaves : List (List Char) → List String → Prop
  | nil : Leaves [] []
  | blank {stretch : List Char} {stretches : List (List Char)} {entries : List String}
    (hblank : TrimsTo stretch []) (hrest : Leaves stretches entries) :
    Leaves (stretch :: stretches) entries
  | entry {stretch : List Char} {stretches : List (List Char)} {entry : String}
    {entries : List String} (hne : entry ≠ "") (htrim : TrimsTo stretch entry.toList)
    (hrest : Leaves stretches entries) : Leaves (stretch :: stretches) (entry :: entries)

/-- All entries of a value, in the order in which they stand in it. -/
def HasEntries (value : String) (entries : List String) : Prop :=
  ∃ stretches : List (List Char), stretches ≠ [] ∧ (∀ stretch ∈ stretches, ',' ∉ stretch) ∧
    value.toList = [','].intercalate stretches ∧ Leaves stretches entries

/-- The trimmed stretches that are not empty. -/
def kept (stretches : List (List Char)) : List String :=
  ((stretches.map trimmed).filter (!·.isEmpty)).map String.ofList

theorem kept_cons (stretch : List Char) (stretches : List (List Char)) :
    kept (stretch :: stretches) =
      if trimmed stretch = [] then kept stretches
      else String.ofList (trimmed stretch) :: kept stretches := by
  rw [kept, List.map_cons]
  cases trimmed stretch <;> rfl

theorem leaves_iff {stretches : List (List Char)} {entries : List String} :
    Leaves stretches entries ↔ kept stretches = entries := by
  constructor
  · intro h
    induction h with
    | nil => rfl
    | blank hblank _ ih => rw [kept_cons, if_pos (trimmed_of_trimsTo hblank), ih]
    | @entry _ _ entry _ hne htrim _ ih =>
      have hsome : entry.toList ≠ [] := fun hnil => hne (String.toList_eq_nil_iff.mp hnil)
      rw [kept_cons, trimmed_of_trimsTo htrim, if_neg hsome, String.ofList_toList, ih]
  · rintro rfl
    induction stretches with
    | nil => exact .nil
    | cons stretch rest ih =>
      rw [kept_cons]
      split
      · rename_i hnil
        exact .blank (trimmed_eq_iff.mp hnil) ih
      · rename_i hsome
        refine .entry (fun hempty => hsome ?_) ?_ ih
        · rw [← String.toList_inj, String.toList_ofList] at hempty
          exact hempty
        · rw [String.toList_ofList]
          exact trimsTo_trimmed stretch

/-- A value has its entries in one order only, the one in which they are read. -/
theorem hasEntries_iff {value : String} {entries : List String} :
    HasEntries value entries ↔ pieces value = entries := by
  have hpieces : pieces value = kept (cut ',' value.toList) := rfl
  rw [hpieces, ← leaves_iff, cut_eq_splitOn]
  constructor
  · rintro ⟨stretches, hne, hnone, hvalue, hleaves⟩
    rwa [hvalue, List.splitOn_intercalate ',' hnone hne]
  · intro hleaves
    refine ⟨value.toList.splitOn ',', ?_, fun stretch hstretch => ?_,
      (List.intercalate_splitOn ',').symm, hleaves⟩
    · rw [← cut_eq_splitOn]
      exact cut_ne_nil ',' _
    · rw [← cut_eq_splitOn] at hstretch
      exact (Stretch.of_mem_cut hstretch).1

theorem pieces_append (a b : String) : pieces (a ++ "," ++ b) = pieces a ++ pieces b := by
  have hchars : (a ++ "," ++ b).toList = a.toList ++ ',' :: b.toList := by simp
  rw [pieces, hchars, cut_append_cons, List.map_append, List.filter_append, List.map_append]
  rfl

theorem pieces_intercalate (values : List String) :
    pieces (",".intercalate values) = values.flatMap pieces := by
  induction values with
  | nil => rfl
  | cons value rest ih =>
    cases rest with
    | nil => rw [String.intercalate_singleton, List.flatMap_singleton]
    | cons next others =>
      rw [String.intercalate_cons_of_ne_nil (List.cons_ne_nil next others), pieces_append, ih]
      rfl

end Text
end FeatureGates
