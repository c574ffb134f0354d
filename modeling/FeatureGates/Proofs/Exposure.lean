import FeatureGates.Proofs.Digits
import FeatureGates.Rollout
import Mathlib.Algebra.Order.Floor.Div
import Mathlib.Data.Finset.Card
import Mathlib.Data.Finset.Filter
import Mathlib.Data.Finset.Range
import Mathlib.GroupTheory.GroupAction.Ring

/-!
The arithmetic of rollouts.

The number behind a bucket is written in hexadecimal digits, read back, multiplied at a width of
its own and cut to 32 bits.  None of this loses anything: the number is the first 60 bits of the
digest, and a gate is on for a customer just when the number is less than the exposed share of all
numbers of 60 bits.
-/

namespace FeatureGates

/-! ## The digits of a digest -/

namespace Sha1

/-- The digit at a place of a digest, counted from the front. -/
def digitAt (digest : BitVec 160) (i : Nat) : Nat := digest.toNat >>> (4 * (39 - i)) % 16

theorem map_range_double {α : Type} (f : Nat → α) (n : Nat) :
    (List.range n).flatMap (fun i => [f (2 * i), f (2 * i + 1)]) = (List.range (2 * n)).map f := by
  induction n with
  | zero => rfl
  | succ n ih =>
    rw [List.range_succ, List.flatMap_append, ih, Nat.mul_succ, List.range_succ, List.range_succ]
    simp

theorem hexPairs_bytes (digest : BitVec 160) :
    Text.hexPairs (bytes digest) = (List.range 40).map fun i => (digitAt digest i).digitChar := by
  rw [← map_range_double (n := 20), Text.hexPairs, bytes, List.flatMap_map]
  refine List.flatMap_congr fun i hi => ?_
  have hi' : i < 20 := List.mem_range.mp hi
  -- A byte is the half at an even place and the half after it.
  have hhigh : 4 * (39 - 2 * i) = 8 * (19 - i) + 4 := by omega
  have hlow : 4 * (39 - (2 * i + 1)) = 8 * (19 - i) := by omega
  have hbyte : (UInt8.ofNat (digest.toNat >>> (8 * (19 - i)))).toNat =
      digest.toNat >>> (8 * (19 - i)) % 256 := rfl
  rw [digitAt, digitAt, hhigh, hlow, hbyte, Nat.shiftRight_add]
  generalize digest.toNat >>> (8 * (19 - i)) = byte
  have hupper : byte % 256 / 16 = byte >>> 4 % 16 := by omega
  have hlower : byte % 256 % 16 = byte % 16 := by omega
  rw [hupper, hlower]

theorem ofDigits_digitAt (digest : BitVec 160) {k : Nat} (hk : k ≤ 40) :
    Text.ofDigits 16 ((List.range k).map (digitAt digest)) = digest.toNat >>> (4 * (40 - k)) := by
  induction k with
  | zero =>
    have h := digest.isLt
    show 0 = digest.toNat >>> 160
    omega
  | succ k ih =>
    have hplace : 4 * (40 - k) = 4 * (39 - k) + 4 := by omega
    have hnext : 40 - (k + 1) = 39 - k := by omega
    rw [List.range_succ, List.map_append, List.map_singleton, Text.ofDigits_concat,
      ih (by omega), hplace, hnext, Nat.shiftRight_add, digitAt]
    omega

end Sha1

namespace Rollout

/-- The number that is read is the first 60 bits of the digest. -/
theorem toNat_leading (digest : BitVec 160) :
    (leading digest).toNat = (digest.extractLsb' 100 60).toNat := by
  have hlt := digest.isLt
  have hdigits : (Text.hexPairs (Sha1.bytes digest)).take leadingDigits =
      ((List.range 15).map (Sha1.digitAt digest)).map Nat.digitChar := by
    rw [Sha1.hexPairs_bytes, List.map_map, ← List.map_take, List.take_range]
    rfl
  have hvalue : Text.ofDigits 16 ((List.range 15).map (Sha1.digitAt digest)) =
      digest.toNat >>> 100 := Sha1.ofDigits_digitAt digest (by decide)
  have hnumber : Text.number? 16 UInt64.size
      (((List.range 15).map (Sha1.digitAt digest)).map Nat.digitChar) =
      some (digest.toNat >>> 100) := by
    rw [← hvalue]
    refine Text.number?_of_digits (by decide) (fun d hd => ?_) (by simp) ?_
    · obtain ⟨i, -, rfl⟩ := List.mem_map.mp hd
      exact Nat.mod_lt _ (by decide)
    · rw [hvalue, UInt64.size]
      omega
  rw [leading, hdigits, hnumber, Option.getD_some, BitVec.toNat_ofNat, BitVec.extractLsb'_toNat]
  omega

theorem toNat_leading_lt (digest : BitVec 160) : (leading digest).toNat < 2 ^ 60 := by
  rw [toNat_leading]
  exact (digest.extractLsb' 100 60).isLt

theorem toNat_bucketOf {n : BitVec 64} (hn : n.toNat < 2 ^ 60) :
    (bucketOf n).toNat = 100 * n.toNat / 2 ^ 60 := by
  have hbuckets : (BitVec.ofNat 128 buckets).toNat = 100 := rfl
  have hbound : (BitVec.ofNat 128 leadingBound).toNat = 2 ^ 60 := rfl
  have hwide : (n.setWidth 128).toNat = n.toNat := BitVec.toNat_setWidth_of_le (by decide)
  -- Neither the product nor the quotient is too large for its width.
  have hproduct : n.toNat * 100 % 2 ^ 128 = n.toNat * 100 := Nat.mod_eq_of_lt (by omega)
  have hquotient : n.toNat * 100 / 2 ^ 60 % 2 ^ 32 = n.toNat * 100 / 2 ^ 60 :=
    Nat.mod_eq_of_lt (by omega)
  rw [bucketOf, BitVec.toNat_setWidth, BitVec.toNat_udiv, BitVec.toNat_mul, hwide, hbuckets, hbound,
    hproduct, hquotient, Nat.mul_comm]

/-! ## The exposed share -/

/-- Whether the leading number lets a customer in. -/
def exposes (exposure : Nat) (n : BitVec 64) : Bool :=
  if buckets ≤ exposure then true
  else if exposure = 0 then false
  else (bucketOf n).toNat < exposure

theorem reaches_some (gate id : String) (exposure : Nat) :
    reaches gate (some id) exposure = exposes exposure (leading (digest (key gate id))) := rfl

theorem reaches_none (gate : String) (exposure : Nat) :
    reaches gate none exposure = true ↔ 100 ≤ exposure := by
  rw [reaches, buckets]
  by_cases hall : 100 ≤ exposure
  · simp [hall]
  · by_cases hzero : exposure = 0 <;> simp [hall, hzero]

/-- The special cases at both ends agree with the comparison. -/
theorem exposes_iff {n : BitVec 64} (hn : n.toNat < 2 ^ 60) (exposure : Nat) :
    exposes exposure n = true ↔ 100 * n.toNat < exposure * 2 ^ 60 := by
  rw [exposes, buckets, toNat_bucketOf hn]
  split
  case isTrue hall => exact iff_of_true rfl (by omega)
  case isFalse hall =>
    split
    case isTrue hzero => exact iff_of_false Bool.false_ne_true (by omega)
    case isFalse => rw [decide_eq_true_eq, Nat.div_lt_iff_lt_mul (by decide)]

/-- Only the folded name counts. -/
theorem reaches_congr {gate other : String} (hfold : Text.fold other = Text.fold gate)
    (customer : Option String) (exposure : Nat) :
    reaches other customer exposure = reaches gate customer exposure := by
  cases customer with
  | none => rfl
  | some id => rw [reaches_some, reaches_some, key, key, hfold]

theorem reaches_mono {gate : String} {customer : Option String} {exposure exposure' : Nat}
    (hle : exposure ≤ exposure') (hreaches : reaches gate customer exposure = true) :
    reaches gate customer exposure' = true := by
  cases customer with
  | none =>
    rw [reaches_none] at hreaches ⊢
    exact Nat.le_trans hreaches hle
  | some id =>
    have hn : (leading (digest (key gate id))).toNat < 2 ^ 60 := toNat_leading_lt _
    rw [reaches_some, exposes_iff hn] at hreaches ⊢
    exact Nat.lt_of_lt_of_le hreaches (Nat.mul_le_mul_right _ hle)

/-- How many numbers of 60 bits let a customer in. -/
theorem card_exposes {exposure : Nat} (he : exposure ≤ 100) :
    ((Finset.range (2 ^ 60)).filter fun n => exposes exposure (BitVec.ofNat 64 n)).card =
      (exposure * 2 ^ 60) ⌈/⌉ 100 := by
  -- The numbers that do are those below the share.
  have hfilter : (Finset.range (2 ^ 60)).filter
      (fun n => exposes exposure (BitVec.ofNat 64 n)) =
      Finset.range ((exposure * 2 ^ 60) ⌈/⌉ 100) := by
    ext n
    rw [Finset.mem_filter, Finset.mem_range, Finset.mem_range, Nat.ceilDiv_eq_add_pred_div]
    have hexposes : n < 2 ^ 60 → (exposes exposure (BitVec.ofNat 64 n) = true ↔
        100 * n < exposure * 2 ^ 60) := by
      intro hn
      have hvalue : (BitVec.ofNat 64 n).toNat = n := Nat.mod_eq_of_lt (by omega)
      rw [exposes_iff (by rwa [hvalue]), hvalue]
    constructor
    · rintro ⟨hn, hexposed⟩
      have hlt := (hexposes hn).mp hexposed
      omega
    · intro hlt
      have hn : n < 2 ^ 60 := by omega
      exact ⟨hn, (hexposes hn).mpr (by omega)⟩
  rw [hfilter, Finset.card_range]

/-- A customer's bucket and the decisions taken from it, by the first 60 bits of the digest: they are
those of exact arithmetic, and a larger exposure lets in all that a smaller one does, by one number
in a hundred for each percent. -/
theorem exposure_by_leading_bits (gate customer : String) :
    let digest := Sha1.digest (Text.fold gate ++ "." ++ customer).toUTF8.data.toList
    let n := (digest.extractLsb' 100 60).toNat
    bucket gate customer = 100 * n / 2 ^ 60 ∧ bucket gate customer < 100 ∧
    (∀ exposure, reaches gate (some customer) exposure = true ↔ 100 * n < exposure * 2 ^ 60) ∧
    (∀ exposure, reaches gate none exposure = true ↔ 100 ≤ exposure) ∧
    (∀ other, Text.fold other = Text.fold gate → bucket other customer = bucket gate customer ∧
      ∀ c exposure, reaches other c exposure = reaches gate c exposure) ∧
    (∀ c exposure exposure', exposure ≤ exposure' → reaches gate c exposure = true →
      reaches gate c exposure' = true) ∧
    (∀ exposure, reaches gate (some customer) exposure = exposes exposure (BitVec.ofNat 64 n)) ∧
    ∀ exposure ≤ 100,
      ((Finset.range (2 ^ 60)).filter fun n => exposes exposure (BitVec.ofNat 64 n)).card =
        (exposure * 2 ^ 60) ⌈/⌉ 100 := by
  intro digest n
  have hleading : (leading digest).toNat = n := toNat_leading digest
  have hn : (leading digest).toNat < 2 ^ 60 := toNat_leading_lt digest
  have hbucket : bucket gate customer = 100 * n / 2 ^ 60 := by
    rw [← hleading]
    exact toNat_bucketOf hn
  refine ⟨hbucket, ?_, fun exposure => ?_, reaches_none gate,
    fun other hfold => ⟨?_, reaches_congr hfold⟩, fun c exposure exposure' => reaches_mono,
    fun exposure => ?_, fun exposure => card_exposes⟩
  · rw [hbucket, ← hleading]
    omega
  · rw [reaches_some, ← hleading]
    exact exposes_iff hn exposure
  · rw [bucket, bucket, key, key, hfold]
  · rw [← hleading, BitVec.ofNat_toNat, BitVec.setWidth_eq]
    exact reaches_some gate customer exposure

theorem exposure_by_leading_bits_checkout :
    bucket "checkout" "c1" = 23 ∧ bucket "Checkout" "c1" = 23 ∧
    reaches "checkout" (some "c1") 23 = false ∧ reaches "checkout" (some "c1") 24 = true ∧
    reaches "CHECKOUT" (some "c1") 50 = true ∧
    ((Finset.range (2 ^ 60)).filter fun n => exposes 1 (BitVec.ofNat 64 n)).card =
      11529215046068470 := by
  obtain ⟨-, -, -, -, hfold, hmono, -, hcard⟩ := exposure_by_leading_bits "checkout" "c1"
  have hnumber : bucket "checkout" "c1" = 23 := by decide +kernel
  have hin : reaches "checkout" (some "c1") 24 = true := by decide +kernel
  have hmixed : bucket "Checkout" "c1" = 23 :=
    (hfold "Checkout" (by decide +kernel)).1.trans hnumber
  refine ⟨hnumber, hmixed, by decide +kernel, hin, ?_, ?_⟩
  · rw [(hfold "CHECKOUT" (by decide +kernel)).2]
    exact hmono _ 24 50 (by decide) hin
  · rw [hcard 1 (by decide), Nat.ceilDiv_eq_add_pred_div]
    omega

end Rollout
end FeatureGates
