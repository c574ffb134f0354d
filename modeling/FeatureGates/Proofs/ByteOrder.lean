import Mathlib.Data.String.Basic

/-!
Texts by their bytes.  Texts are compared character by character, and the order of characters is
the order of their UTF-8 encodings.  Two encodings differ at a byte of both, so what follows the
first difference of two texts does not matter, and the order of texts is the order of their bytes.
-/

namespace FeatureGates
namespace Text

/-- The bytes of a text in UTF-8. -/
def bytes (text : String) : List UInt8 := text.toUTF8.data.toList

theorem bytes_eq (text : String) : bytes text = text.toList.flatMap String.utf8EncodeChar := by
  rw [bytes, String.toUTF8_eq_toByteArray, ← String.utf8Encode_toList, List.utf8Encode,
    List.data_toByteArray]

theorem bytes_append (a b : String) : bytes (a ++ b) = bytes a ++ bytes b := by
  simp only [bytes_eq, String.toList_append, List.flatMap_append]

theorem bytes_inj {a b : String} : bytes a = bytes b ↔ a = b := by
  rw [bytes, bytes, Array.toList_inj, String.toUTF8_eq_toByteArray, String.toUTF8_eq_toByteArray,
    ← ByteArray.ext_iff, String.toByteArray_inj]

/-- Bytes given as numbers are compared as numbers, and what follows counts if they are equal. -/
theorem byte_cons_lt {m n : Nat} {xs ys : List UInt8} (hm : m < 256) (hn : n < 256) (hle : m ≤ n)
    (hrest : m = n → xs < ys) : UInt8.ofNat m :: xs < UInt8.ofNat n :: ys := by
  rw [List.cons_lt_cons_iff]
  rcases Nat.lt_or_eq_of_le hle with hlt | heq
  · refine Or.inl (UInt8.lt_iff_toNat_lt.mpr ?_)
    rwa [UInt8.toNat_ofNat_of_lt' hm, UInt8.toNat_ofNat_of_lt' hn]
  · exact Or.inr ⟨congrArg UInt8.ofNat heq, hrest heq⟩

theorem toNat_val_lt (c : Char) : c.val.toNat < 0x110000 := by
  have hvalid := c.valid
  simp only [UInt32.isValidChar, Nat.isValidChar] at hvalid
  omega

/-- Of two characters the lesser has the lesser encoding, whatever follows.  A longer encoding
starts with a greater byte, and encodings of one length are numbers in digits to the base 64. -/
theorem encode_append_lt {c d : Char} (hlt : c < d) (xs ys : List UInt8) :
    String.utf8EncodeChar c ++ xs < String.utf8EncodeChar d ++ ys := by
  have hval : c.val.toNat < d.val.toNat := UInt32.lt_iff_toNat_lt.mp hlt
  have hmax := toNat_val_lt d
  rw [String.utf8EncodeChar, String.utf8EncodeChar]
  generalize c.val.toNat = m at hval
  generalize d.val.toNat = n at hval hmax
  -- The cases are the lengths of the two encodings, shorter ones first.
  split
  · split
    · exact byte_cons_lt (by omega) (by omega) (by omega) (by omega)
    · split
      · exact byte_cons_lt (by omega) (by omega) (by omega) (by omega)
      · split
        · exact byte_cons_lt (by omega) (by omega) (by omega) (by omega)
        · exact byte_cons_lt (by omega) (by omega) (by omega) (by omega)
  · rw [if_neg (by omega : ¬n ≤ 127)]
    split
    · split
      · exact byte_cons_lt (by omega) (by omega) (by omega) fun _ =>
          byte_cons_lt (by omega) (by omega) (by omega) (by omega)
      · split
        · exact byte_cons_lt (by omega) (by omega) (by omega) (by omega)
        · exact byte_cons_lt (by omega) (by omega) (by omega) (by omega)
    · rw [if_neg (by omega : ¬n ≤ 2047)]
      split
      · split
        · exact byte_cons_lt (by omega) (by omega) (by omega) fun _ =>
            byte_cons_lt (by omega) (by omega) (by omega) fun _ =>
              byte_cons_lt (by omega) (by omega) (by omega) (by omega)
        · exact byte_cons_lt (by omega) (by omega) (by omega) (by omega)
      · rw [if_neg (by omega : ¬n ≤ 65535)]
        exact byte_cons_lt (by omega) (by omega) (by omega) fun _ =>
          byte_cons_lt (by omega) (by omega) (by omega) fun _ =>
            byte_cons_lt (by omega) (by omega) (by omega) fun _ =>
              byte_cons_lt (by omega) (by omega) (by omega) (by omega)

theorem flatMap_encode_lt {cs ds : List Char} (hlt : cs < ds) :
    cs.flatMap String.utf8EncodeChar < ds.flatMap String.utf8EncodeChar := by
  induction cs generalizing ds with
  | nil =>
    cases ds with
    | nil => cases hlt
    | cons d ds =>
      obtain ⟨byte, rest, hbytes⟩ := List.exists_cons_of_ne_nil (@String.utf8EncodeChar_ne_nil d)
      rw [List.flatMap_cons, hbytes]
      exact List.nil_lt_cons _ _
  | cons c cs ih =>
    cases ds with
    | nil => cases hlt
    | cons d ds =>
      rw [List.flatMap_cons, List.flatMap_cons]
      rcases List.cons_lt_cons_iff.mp hlt with hchar | ⟨rfl, hrest⟩
      · exact encode_append_lt hchar _ _
      · exact List.append_left_lt (ih hrest)

theorem lt_iff_bytes_lt (a b : String) : a < b ↔ bytes a < bytes b := by
  have hmono : ∀ {a b : String}, a < b → bytes a < bytes b := by
    intro a b hlt
    rw [bytes_eq, bytes_eq]
    exact flatMap_encode_lt (String.lt_iff_toList_lt.mp hlt)
  refine ⟨hmono, fun hbytes => ?_⟩
  rcases lt_trichotomy a b with hlt | rfl | hgt
  · exact hlt
  · exact absurd hbytes (List.lt_irrefl _)
  · exact absurd (hmono hgt) (List.lt_asymm hbytes)

end Text
end FeatureGates
