import FeatureGates.Proofs.Folding
import Mathlib.Tactic.ByContra

/-!
ASCII names and texts beyond ASCII.

Two ASCII texts are compared letter by letter, and any others by their lowercase forms.  A text with
characters beyond ASCII can still have the name of an ASCII text: the Kelvin sign is lowered to the
letter k.  It is the only character that can be, so with one ASCII text it is enough to read Kelvin
signs as letters and to compare letter by letter (`sameName_iff_of_ascii_or`).

All that is needed of the table of case runs is where the images of a run lie, which is checked run
by run and not character by character.
-/

namespace FeatureGates
namespace Text

/-! ## Characters that are lowered to ASCII -/

/-- The Kelvin sign as the capital letter it looks like, and every other character as it is. -/
def plainKelvin (c : Char) : Char := if c = '\u212A' then 'K' else c

theorem plainKelvin_of_ascii {c : Char} (h : c.toNat < 0x80) : plainKelvin c = c := by
  have hne : c ≠ '\u212A' := fun e => absurd h (by rw [e]; decide)
  rw [plainKelvin, if_neg hne]

theorem ascii_toLower_iff (c : Char) : c.toLower.toNat < 0x80 ↔ c.toNat < 0x80 := by
  constructor
  · intro h
    by_contra hc
    have hsame : c.toLower = c := by
      refine dif_neg fun hletter => hc ?_
      exact Nat.lt_of_le_of_lt (UInt32.le_iff_toNat_le.mp hletter.2) (by decide)
    exact hc (hsame ▸ h)
  · exact forall_ascii (p := fun c => c.toLower.toNat < 0x80) (by decide)

theorem toNat_ofNat {n : Nat} (h : n.isValidChar) : (Char.ofNat n).toNat = n := by
  rw [Char.ofNat, dif_pos h]
  rfl

/-- Only the run of the Kelvin sign has an image in ASCII, and all images are characters. -/
theorem caseRuns_above_ascii : ∀ r ∈ caseRuns, r.first = 0x212A ∧ r.last = 0x212A ∨
    0x80 ≤ r.target ∧ (r.target + (r.last - r.first) < 0xD800 ∨
      0xDFFF < r.target ∧ r.target + (r.last - r.first) < 0x110000) := by
  decide +kernel

theorem image?_above_ascii {r : CaseRun} (hr : r ∈ caseRuns) {n m : Nat} (hn : n ≠ 0x212A)
    (hm : r.image? n = some m) : 0x80 ≤ m ∧ m.isValidChar := by
  rw [CaseRun.image?, Option.ite_none_right_eq_some] at hm
  obtain ⟨⟨hfirst, hlast, -⟩, hm⟩ := hm
  cases hm
  have hrun := caseRuns_above_ascii r hr
  unfold Nat.isValidChar
  omega

theorem lowerChar_of_plain {c : Char} (h : (plainKelvin c).toNat < 0x80) :
    c ≠ 'Σ' ∧ lowerChar c = [(plainKelvin c).toLower] := by
  by_cases hkelvin : c = '\u212A'
  · subst hkelvin
    decide
  · rw [plainKelvin, if_neg hkelvin] at h ⊢
    exact ⟨fun e => absurd h (by rw [e]; decide), lowerChar_of_ascii h⟩

theorem exists_mem_lowerChar {c : Char} (h : ¬(plainKelvin c).toNat < 0x80) :
    ∃ d ∈ lowerChar c, ¬d.toNat < 0x80 := by
  have hkelvin : c ≠ '\u212A' := fun e => h (by rw [e]; decide)
  rw [plainKelvin, if_neg hkelvin] at h
  rw [lowerChar, if_neg h]
  split
  · -- The letter i with a dot keeps the dot as a mark.
    exact ⟨Char.ofNat 0x307, by decide, by decide⟩
  · split
    · rename_i m hm
      obtain ⟨r, hr, himage⟩ := List.exists_of_findSome?_eq_some hm
      have hn : c.toNat ≠ 0x212A := fun e => hkelvin (by rw [← Char.ofNat_toNat c, e])
      obtain ⟨hle, hvalid⟩ := image?_above_ascii hr hn himage
      refine ⟨_, List.mem_singleton_self _, ?_⟩
      rw [toNat_ofNat hvalid]
      exact Nat.not_lt.mpr hle
    · exact ⟨c, List.mem_singleton_self c, h⟩

/-! ## Texts that are lowered to ASCII -/

/-- What is beyond ASCII in a text stays beyond ASCII, Kelvin signs apart. -/
theorem exists_mem_lowerFrom (before : List Char) {cs : List Char} {c : Char} (hc : c ∈ cs)
    (h : ¬(plainKelvin c).toNat < 0x80) : ∃ d ∈ lowerFrom before cs, ¬d.toNat < 0x80 := by
  induction cs generalizing before with
  | nil => cases hc
  | cons first rest ih =>
    rw [lowerFrom]
    rcases List.mem_cons.mp hc with rfl | hc
    · by_cases hsigma : c = 'Σ'
      · rw [if_pos hsigma]
        refine ⟨_, List.mem_append_left _ (List.mem_singleton_self _), ?_⟩
        rw [lowerSigma]
        split <;> decide
      · rw [if_neg hsigma]
        obtain ⟨d, hd, hbeyond⟩ := exists_mem_lowerChar h
        exact ⟨d, List.mem_append_left _ hd, hbeyond⟩
    · obtain ⟨d, hd, hbeyond⟩ := ih (first :: before) hc
      exact ⟨d, List.mem_append_right _ hd, hbeyond⟩

theorem map_plainKelvin {s : String} (hs : isAscii s = true) :
    s.toList.map plainKelvin = s.toList :=
  (List.map_congr_left fun c hc => plainKelvin_of_ascii (isAscii_iff.mp hs c hc)).trans
    (List.map_id _)

theorem fold_of_plain {s : String} (h : ∀ c ∈ s.toList.map plainKelvin, c.toNat < 0x80) :
    fold s = String.ofList ((s.toList.map plainKelvin).map Char.toLower) := by
  rw [fold, lowercase, List.map_map,
    lowerFrom_eq_map [] fun c hc => lowerChar_of_plain (h _ (List.mem_map_of_mem hc))]
  rfl

/-- The folded form is ASCII just when the name is, but for Kelvin signs. -/
theorem isAscii_fold_iff {s : String} :
    isAscii (fold s) = true ↔ ∀ c ∈ s.toList.map plainKelvin, c.toNat < 0x80 := by
  constructor
  · intro h plain hplain
    obtain ⟨c, hc, rfl⟩ := List.mem_map.mp hplain
    by_contra hbeyond
    obtain ⟨d, hd, hdbeyond⟩ := exists_mem_lowerFrom [] hc hbeyond
    exact hdbeyond (isAscii_iff.mp h d (by rwa [fold, lowercase, String.toList_ofList]))
  · intro h
    rw [fold_of_plain h, isAscii_iff, String.toList_ofList]
    intro d hd
    obtain ⟨c, hc, rfl⟩ := List.mem_map.mp hd
    exact (ascii_toLower_iff c).mpr (h c hc)

/-! ## Comparison with an ASCII text -/

theorem sameName_iff_of_ascii {a b : String} (ha : isAscii a = true) : sameName a b = true ↔
    sameAsciiLetters (a.toList.map plainKelvin) (b.toList.map plainKelvin) = true := by
  have ha' : ∀ c ∈ a.toList.map plainKelvin, c.toNat < 0x80 := by
    rw [map_plainKelvin ha]
    exact isAscii_iff.mp ha
  rw [sameName_iff, sameAsciiLetters_iff]
  by_cases hb : ∀ c ∈ b.toList.map plainKelvin, c.toNat < 0x80
  · rw [fold_of_plain ha', fold_of_plain hb, String.ofList_inj]
  · -- Something of `b` stays beyond ASCII on either side, and nothing of `a` does.
    refine iff_of_false (fun h => hb ?_) (fun h => hb fun c hc => ?_)
    · exact isAscii_fold_iff.mp (h ▸ isAscii_fold_iff.mpr ha')
    · have hlower := List.mem_map_of_mem (f := Char.toLower) hc
      rw [← h] at hlower
      obtain ⟨d, hd, hdc⟩ := List.mem_map.mp hlower
      rw [← ascii_toLower_iff, ← hdc, ascii_toLower_iff]
      exact ha' d hd

/-- With one ASCII text the comparison can go letter by letter, once Kelvin signs are read as
letters. -/
theorem sameName_iff_of_ascii_or {a b : String} (h : isAscii a = true ∨ isAscii b = true) :
    sameName a b = true ↔
      sameAsciiLetters (a.toList.map plainKelvin) (b.toList.map plainKelvin) = true := by
  rcases h with ha | hb
  · exact sameName_iff_of_ascii ha
  · rw [sameName_iff, eq_comm, ← sameName_iff, sameName_iff_of_ascii hb, sameAsciiLetters_iff,
      sameAsciiLetters_iff, eq_comm]

end Text
end FeatureGates
