import FeatureGates.Proofs.Folding
import Mathlib.Tactic.Tauto

/-!
First spellings.

Of the spellings of a name that a list holds, the first is kept, where the name is first met.  What
is kept has the names of the list: looking for a name comes out the same on either, so it does not
matter when lists are cleared of repetitions, nor how often.
-/

namespace FeatureGates
namespace Text

/-! ## The same names -/

/-- The same names, in any order, in any spelling, and any number of times. -/
def SameNames (l l' : List String) : Prop := l.map fold ⊆ l'.map fold ∧ l'.map fold ⊆ l.map fold

instance (l l' : List String) : Decidable (SameNames l l') :=
  inferInstanceAs (Decidable (_ ∧ _))

theorem listsName_iff_mem {names : List String} {name : String} :
    listsName names name = true ↔ fold name ∈ names.map fold := by
  rw [listsName_iff, List.mem_map]

theorem any_listsName_iff {sought names : List String} :
    sought.any (listsName names) = true ↔ ∃ key ∈ sought.map fold, key ∈ names.map fold := by
  simp only [List.any_eq_true, listsName_iff_mem]
  constructor
  · rintro ⟨name, hname, hlisted⟩
    exact ⟨fold name, List.mem_map_of_mem hname, hlisted⟩
  · rintro ⟨key, hkey, hlisted⟩
    obtain ⟨name, hname, rfl⟩ := List.mem_map.mp hkey
    exact ⟨name, hname, hlisted⟩

namespace SameNames

variable {l l' : List String} (h : SameNames l l')
include h

theorem mem_iff (key : String) : key ∈ l.map fold ↔ key ∈ l'.map fold := ⟨@h.1 key, @h.2 key⟩

theorem symm : SameNames l' l := ⟨h.2, h.1⟩

theorem listsName_eq (name : String) : listsName l name = listsName l' name := by
  rw [Bool.eq_iff_iff, listsName_iff_mem, listsName_iff_mem, h.mem_iff]

theorem isEmpty_eq : l.isEmpty = l'.isEmpty := by
  have hnil : ∀ {m m' : List String}, SameNames m m' → m = [] → m' = [] := by
    rintro m m' hm rfl
    exact List.map_eq_nil_iff.mp (List.subset_nil.mp hm.2)
  rw [Bool.eq_iff_iff, List.isEmpty_iff, List.isEmpty_iff]
  exact ⟨hnil h, hnil h.symm⟩

end SameNames

/-! ## What is kept -/

/-- What is kept of a list: every name once, in the order in which the names are first met, and each
in the spelling in which it is first met. -/
structure FirstSpellings (all kept : List String) : Prop where
  order : kept.map fold = (all.map fold).eraseDups
  spelling : ∀ key, kept.find? (fold · = key) = all.find? (fold · = key)

theorem map_distinctFrom (met names : List String) : (distinctFrom met names).map fold =
    ((names.map fold).filter fun key => !met.contains key).eraseDups := by
  induction names generalizing met with
  | nil => rfl
  | cons name rest ih =>
    rw [distinctFrom, List.map_cons]
    by_cases hmet : met.contains (fold name) = true
    · rw [if_pos hmet, ih, List.filter_cons_of_neg (by simpa using hmet)]
    · rw [if_neg hmet, List.filter_cons_of_pos (by simpa using hmet), List.eraseDups_cons,
        List.map_cons, ih, List.filter_filter]
      refine congrArg (fun keys => fold name :: List.eraseDups keys) ?_
      refine List.filter_congr fun key _ => ?_
      rw [List.contains_cons, Bool.not_or]

theorem find?_distinctFrom (met names : List String) (key : String) :
    (distinctFrom met names).find? (fold · = key) =
      if met.contains key then none else names.find? (fold · = key) := by
  induction names generalizing met with
  | nil => simp [distinctFrom]
  | cons name rest ih =>
    rw [distinctFrom]
    by_cases hname : fold name = key
    · have hfound : ∀ tail : List String, (name :: tail).find? (fold · = key) = some name :=
        fun tail => List.find?_cons_of_pos (by simpa using hname)
      rw [hfound]
      by_cases hmet : met.contains (fold name) = true
      · rw [if_pos hmet, ih, if_pos (hname ▸ hmet), if_pos (hname ▸ hmet)]
      · rw [if_neg hmet, hfound, if_neg (hname ▸ hmet)]
    · have hpassed : ∀ tail : List String,
          (name :: tail).find? (fold · = key) = tail.find? (fold · = key) :=
        fun tail => List.find?_cons_of_neg (by simpa using hname)
      have hkey : (fold name :: met).contains key = met.contains key := by
        simp [Ne.symm hname]
      rw [hpassed]
      by_cases hmet : met.contains (fold name) = true
      · rw [if_pos hmet, ih]
      · rw [if_neg hmet, hpassed, ih, hkey]

theorem firstSpellings_distinct (names : List String) : FirstSpellings names (distinct names) where
  order := by
    rw [distinct, map_distinctFrom]
    exact congrArg List.eraseDups (List.filter_eq_self.mpr fun _ _ => rfl)
  spelling key := find?_distinctFrom [] names key

theorem pairwise_distinctFrom (met names : List String) :
    (distinctFrom met names).Pairwise fun a b => fold a ≠ fold b := by
  induction names generalizing met with
  | nil => exact List.Pairwise.nil
  | cons name rest ih =>
    rw [distinctFrom]
    split
    · exact ih met
    · refine List.pairwise_cons.mpr ⟨fun other hother hfold => ?_, ih _⟩
      have hkey := List.mem_map_of_mem (f := fold) hother
      rw [map_distinctFrom, List.mem_eraseDups, List.mem_filter, ← hfold] at hkey
      simp at hkey

theorem distinctFrom_sublist (met names : List String) : (distinctFrom met names).Sublist names := by
  induction names generalizing met with
  | nil => exact List.Sublist.slnil
  | cons name rest ih =>
    rw [distinctFrom]
    split
    · exact (ih met).cons name
    · exact (ih _).cons_cons name

theorem distinctFrom_append (met names more : List String) :
    distinctFrom met (distinctFrom met names ++ more) = distinctFrom met (names ++ more) := by
  induction names generalizing met with
  | nil => rfl
  | cons name rest ih =>
    rw [List.cons_append, distinctFrom, distinctFrom]
    split
    · exact ih met
    · rename_i hmet
      rw [List.cons_append, distinctFrom, if_neg hmet, ih]

/-- Names that are added to a list cleared of repetitions might as well have been added before. -/
theorem distinct_distinct_append (names more : List String) :
    distinct (distinct names ++ more) = distinct (names ++ more) :=
  distinctFrom_append [] names more

/-- A name at the end of a list is kept unless it was met before. -/
theorem distinctFrom_concat (met names : List String) (name : String) :
    distinctFrom met (names ++ [name]) = distinctFrom met names ++
      if fold name ∈ met ∨ fold name ∈ names.map fold then [] else [name] := by
  induction names generalizing met with
  | nil => simp [distinctFrom]
  | cons first rest ih =>
    rw [List.cons_append, distinctFrom, distinctFrom]
    simp only [List.map_cons, List.mem_cons]
    by_cases hmet : met.contains (fold first) = true
    · have hfirst : fold name = fold first → fold name ∈ met :=
        fun h => h ▸ List.contains_iff_mem.mp hmet
      rw [if_pos hmet, if_pos hmet, ih]
      refine congrArg _ (if_congr ?_ rfl rfl)
      tauto
    · rw [if_neg hmet, if_neg hmet, ih, List.cons_append]
      simp only [List.mem_cons]
      refine congrArg (fun last => first :: (distinctFrom (fold first :: met) rest ++ last)) ?_
      exact if_congr (by tauto) rfl rfl

theorem distinct_concat (names : List String) (name : String) :
    distinct (names ++ [name]) =
      if listsName names name then distinct names else distinct names ++ [name] := by
  have hmet : (fold name ∈ ([] : List String) ∨ fold name ∈ names.map fold) ↔
      listsName names name = true := by
    simp [listsName_iff_mem]
  rw [distinct, distinctFrom_concat, if_congr hmet rfl rfl, distinct]
  split
  · rw [List.append_nil]
  · rfl

theorem sameNames_distinct (names : List String) : SameNames (distinct names) names := by
  rw [SameNames, (firstSpellings_distinct names).order]
  exact ⟨fun _ => List.mem_eraseDups.mp, fun _ => List.mem_eraseDups.mpr⟩

end Text
end FeatureGates
