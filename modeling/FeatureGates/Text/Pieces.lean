import FeatureGates.Text.Blank

/-!
Lists written in one text.  Headers and query values separate their entries with commas; entries
are trimmed and blank ones do not count.
-/

namespace FeatureGates
namespace Text

/-- The stretches between the separators, empty ones included: one more than there are
separators. -/
def cut (separator : Char) : List Char → List (List Char)
  | [] => [[]]
  | c :: rest =>
    if c = separator then [] :: cut separator rest
    else match cut separator rest with
      | [] => [[c]]
      | first :: others => (c :: first) :: others

/-- The entries of a comma-separated value. -/
def pieces (value : String) : List String :=
  (((cut ',' value.toList).map trimmed).filter (!·.isEmpty)).map String.ofList

theorem cut_ne_nil (separator : Char) (cs : List Char) : cut separator cs ≠ [] := by
  cases cs with
  | nil => simp [cut]
  | cons c rest =>
    simp only [cut]
    split
    · simp
    · split <;> simp

/-- Joining two texts with a separator joins their stretches. -/
theorem cut_append_cons (separator : Char) (xs ys : List Char) :
    cut separator (xs ++ separator :: ys) = cut separator xs ++ cut separator ys := by
  induction xs with
  | nil => simp [cut]
  | cons c rest ih =>
    simp only [List.cons_append, cut, ih]
    by_cases h : c = separator
    · simp [h]
    · cases hc : cut separator rest with
      | nil => exact absurd hc (cut_ne_nil separator rest)
      | cons first others => simp [h]

/-- A list that is split at two places where `a` stands. -/
theorem append_cons_eq_append_cons_iff {α : Type} {a : α} {xs ys xs' ys' : List α} :
    xs ++ a :: ys = xs' ++ a :: ys' ↔ (xs = xs' ∧ ys = ys') ∨
      (∃ r, xs' = xs ++ a :: r ∧ ys = r ++ a :: ys') ∨
      ∃ r, xs = xs' ++ a :: r ∧ ys' = r ++ a :: ys := by
  constructor
  · intro heq
    rcases List.append_eq_append_iff.mp heq with ⟨between, hxs, hys⟩ | ⟨between, hxs, hys⟩
    · cases between with
      | nil => exact Or.inl ⟨by simpa using hxs.symm, by simpa using hys⟩
      | cons b r =>
        obtain ⟨rfl, htail⟩ := List.cons.inj hys
        exact Or.inr (Or.inl ⟨r, hxs, htail⟩)
    · cases between with
      | nil => exact Or.inl ⟨by simpa using hxs, by simpa using hys.symm⟩
      | cons b r =>
        obtain ⟨rfl, htail⟩ := List.cons.inj hys
        exact Or.inr (Or.inr ⟨r, hxs, htail⟩)
  · rintro (⟨rfl, rfl⟩ | ⟨r, rfl, rfl⟩ | ⟨r, rfl, rfl⟩)
    · rfl
    · simp
    · simp

end Text
end FeatureGates
