import FeatureGates.Hierarchy
import FeatureGates.Overrides

/-!
Spellings.  Whatever looks at a name looks at its folded form only, so two spellings of one name can
stand for each other in lookups and in overrides.
-/

namespace FeatureGates

namespace Text

theorem isAscii_iff {s : String} : isAscii s = true ↔ ∀ c ∈ s.toList, c.toNat < 0x80 := by
  simp [isAscii]

/-- What holds of all ASCII characters can be checked one by one. -/
theorem forall_ascii {p : Char → Prop} (h : ∀ n < 0x80, p (Char.ofNat n)) {c : Char}
    (hc : c.toNat < 0x80) : p c := by
  have hp := h c.toNat hc
  rwa [Char.ofNat_toNat] at hp

theorem fold_of_ascii {s : String} (hs : isAscii s = true) :
    fold s = String.ofList (s.toList.map Char.toLower) := by
  rw [fold, lowercase, lowerFrom_of_ascii [] (isAscii_iff.mp hs)]

theorem isAscii_append (s t : String) : isAscii (s ++ t) = (isAscii s && isAscii t) := by
  rw [isAscii, String.toList_append, List.all_append, isAscii, isAscii]

/-- Letters of ASCII texts are lowered wherever they stand. -/
theorem fold_append_of_ascii {s t : String} (hs : isAscii s = true) (ht : isAscii t = true) :
    fold (s ++ t) = fold s ++ fold t := by
  have hst : isAscii (s ++ t) = true := by rw [isAscii_append, hs, ht, Bool.and_self]
  rw [fold_of_ascii hst, fold_of_ascii hs, fold_of_ascii ht, String.toList_append, List.map_append,
    String.ofList_append]

theorem fold_intercalate_of_ascii {separator : String} {l : List String}
    (hseparator : isAscii separator = true) (hl : ∀ s ∈ l, isAscii s = true) :
    isAscii (separator.intercalate l) = true ∧
      fold (separator.intercalate l) = (fold separator).intercalate (l.map fold) := by
  induction l with
  | nil => exact ⟨rfl, rfl⟩
  | cons s rest ih =>
    obtain ⟨hs, hrest⟩ := List.forall_mem_cons.mp hl
    obtain ⟨hascii, hfold⟩ := ih hrest
    rw [List.map_cons]
    by_cases hnil : rest = []
    · rw [hnil, List.map_nil, String.intercalate_singleton, String.intercalate_singleton]
      exact ⟨hs, rfl⟩
    · have hs' : isAscii (s ++ separator) = true := by
        rw [isAscii_append, hs, hseparator, Bool.and_self]
      have hnil' : rest.map fold ≠ [] := fun h => hnil (List.map_eq_nil_iff.mp h)
      rw [String.intercalate_cons_of_ne_nil hnil, String.intercalate_cons_of_ne_nil hnil',
        isAscii_append, fold_append_of_ascii hs' hascii, fold_append_of_ascii hs hseparator, hfold,
        hs', hascii]
      exact ⟨rfl, rfl⟩

/-- No letter is lowered to a slash. -/
theorem slash_not_mem_fold {s : String} (hs : isAscii s = true) (hslash : '/' ∉ s.toList) :
    '/' ∉ (fold s).toList := by
  have hlower : ∀ n < 0x80, (Char.ofNat n).toLower = '/' → Char.ofNat n = '/' := by decide
  rw [fold_of_ascii hs, String.toList_ofList]
  intro hmem
  obtain ⟨c, hc, hcslash⟩ := List.mem_map.mp hmem
  have hsame : c.toLower = '/' → c = '/' :=
    forall_ascii (p := fun c => c.toLower = '/' → c = '/') hlower (isAscii_iff.mp hs c hc)
  exact hslash (hsame hcslash ▸ hc)

/-- The comparison of ASCII texts letter by letter is the comparison of their folded forms. -/
theorem sameName_iff (a b : String) : sameName a b = true ↔ fold a = fold b := by
  unfold sameName
  split
  · rename_i hascii
    obtain ⟨ha, hb⟩ := Bool.and_eq_true_iff.mp hascii
    rw [fold_of_ascii ha, fold_of_ascii hb, String.ofList_inj]
    exact sameAsciiLetters_iff a.toList b.toList
  · exact beq_iff_eq

theorem sameName_eq_decide (a b : String) : sameName a b = decide (fold a = fold b) := by
  rw [Bool.eq_iff_iff, sameName_iff, decide_eq_true_iff]

theorem sameName_equivalence : Equivalence fun a b => sameName a b = true := by
  simp only [sameName_iff]
  exact ⟨fun _ => rfl, Eq.symm, Eq.trans⟩

theorem listsName_iff (names : List String) (name : String) :
    listsName names name = true ↔ ∃ other ∈ names, fold other = fold name := by
  simp only [listsName, List.any_eq_true, sameName_iff]

theorem listsName_congr {a b : String} (hab : fold a = fold b) (names : List String) :
    listsName names a = listsName names b := by
  rw [Bool.eq_iff_iff, listsName_iff, listsName_iff, hab]

end Text

namespace Overrides

theorem apply_congr (o : Overrides) {a b : String} (hab : Text.fold a = Text.fold b)
    (d : Decision) : o.apply a d = o.apply b d := by
  unfold apply
  rw [Text.listsName_congr hab, Text.listsName_congr hab, Text.listsName_congr hab]

theorem amend_congr (o : Overrides) {a b : String} (hab : Text.fold a = Text.fold b)
    (d : Decision) : o.amend a d = o.amend b d := by
  unfold amend
  rw [o.apply_congr hab]

theorem amend_of_isEmpty {o : Overrides} (ho : o.isEmpty = true) (gate : String) (d : Decision) :
    o.amend gate d = d := by
  simp [amend, ho]

theorem apply_of_isEmpty {o : Overrides} (ho : o.isEmpty = true) (gate : String) (d : Decision) :
    o.apply gate d = d := by
  obtain ⟨enabled, disabled, toggled⟩ := o
  simp only [isEmpty, Bool.and_eq_true, List.isEmpty_iff] at ho
  obtain ⟨⟨rfl, rfl⟩, rfl⟩ := ho
  rfl

/-- Gates that exist are overridden without exception. -/
theorem amend_eq_apply (o : Overrides) (gate : String) {d : Decision} (hd : d.isMissing = false) :
    o.amend gate d = o.apply gate d := by
  unfold amend
  split
  · rename_i h
    rw [hd, Bool.or_false] at h
    exact (apply_of_isEmpty h gate d).symm
  · rfl

@[simp] theorem amend_gateNotFound (o : Overrides) (gate : String) :
    o.amend gate (Decision.error .gateNotFound) = Decision.error .gateNotFound := by
  simp [amend, Decision.isMissing, Decision.error]

end Overrides

namespace Hierarchy

variable {h : Hierarchy}

/-- Lookup by name, written with the names as they are in the document. -/
theorem named?_eq_find? (name : String) :
    h.named? name = h.gates.find? fun g => Text.fold g.name = Text.fold name := by
  simp only [named?, Gate.key_eq]

theorem named?_congr {a b : String} (hab : Text.fold a = Text.fold b) :
    h.named? a = h.named? b := by
  rw [named?_eq_find?, named?_eq_find?, hab]

theorem mem_of_named? {name : String} {g : Gate} (hg : h.named? name = some g) : g ∈ h.gates :=
  List.mem_of_find?_eq_some hg

theorem fold_name_of_named? {name : String} {g : Gate} (hg : h.named? name = some g) :
    Text.fold g.name = Text.fold name := by
  rw [named?_eq_find?] at hg
  simpa using List.find?_some hg

end Hierarchy
end FeatureGates
