import FeatureGates.Address.Printer
import FeatureGates.Proofs.AddressForms
import Mathlib.Algebra.Group.Nat.Defs

/-!
Addresses that are written and read back.

What is written for an address is one of the texts that it is read from.  In an IPv6 address the
longest stretch of zero groups is left out; as many zeros as are missing stand between the groups
before it and after it.
-/

namespace FeatureGates
namespace Address

open Text

/-! ## Numbers -/

theorem NumberForm.writes_toDigits {form : NumberForm} {n : Nat} (hbase : 1 < form.base)
    (hbase' : form.base ≤ 16) (hn : n < form.bound)
    (hfits : ∀ m ∈ form.maxDigits, 0 < m ∧ n < form.base ^ m) :
    form.Writes n (Nat.toDigits form.base n) := by
  obtain ⟨digits, hdigits, hchars⟩ := exists_digitsOf hbase n
  have hlen : ∀ m ∈ form.maxDigits, digits.length ≤ m := by
    intro m hm
    obtain ⟨hpos, hlt⟩ := hfits m hm
    have hlen := (Nat.length_toDigits_le_iff hbase hpos).mpr hlt
    rwa [hchars, List.length_map] at hlen
  have hzero : digits.head? = some 0 → digits.length = 1 := by
    intro hhead
    have hpos := List.length_pos_iff.mpr hdigits.ne_nil
    exact Nat.le_antisymm (Nat.le_of_not_lt fun hlong => hdigits.head_ne_zero hlong hhead) hpos
  rw [hchars]
  exact ⟨digits, digitsAre_map_digitChar hbase' hdigits.lt, ⟨hdigits.ne_nil, hlen, fun _ => hzero,
    hdigits.value ▸ hn⟩, hdigits.value⟩

theorem intercalate_cons (separator : Char) (first : List Char) (rest : List (List Char)) :
    List.intercalate [separator] (first :: rest) = first ++ rest.flatMap (separator :: ·) := by
  induction rest generalizing first with
  | nil => simp
  | cons next rest ih =>
    rw [List.intercalate_cons_cons, ih, List.flatMap_cons, List.append_assoc]
    rfl

/-! ## IPv4 -/

theorem writes_octet {n : Nat} (hn : n < 256) : octetForm.Writes n (Nat.toDigits 10 n) := by
  refine NumberForm.writes_toDigits (by decide) (by decide) hn fun m hm => ?_
  obtain rfl : 3 = m := Option.some.inj hm
  exact ⟨by decide, Nat.lt_of_lt_of_le hn (by decide)⟩

theorem exists_octets (bits : BitVec 32) : ∃ a b c d, octets bits = [a, b, c, d] ∧
    bits.toNat = ((a * 256 + b) * 256 + c) * 256 + d ∧
    a < 256 ∧ b < 256 ∧ c < 256 ∧ d < 256 := by
  have hlt := bits.isLt
  refine ⟨_, _, _, _, rfl, ?_, ?_, ?_, ?_, ?_⟩
  · simp only [Nat.shiftRight_eq_div_pow]
    omega
  all_goals exact Nat.mod_lt _ (by decide)

theorem octets_v4Chars (bits : BitVec 32) : Octets (octets bits) (v4Chars bits) := by
  obtain ⟨a, b, c, d, hoctets, -, ha, hb, hc, hd⟩ := exists_octets bits
  rw [v4Chars, hoctets]
  simp only [List.map_cons, List.map_nil, List.intercalate_cons_cons, List.intercalate_singleton,
    List.append_assoc, List.cons_append, List.nil_append]
  exact .mk (writes_octet ha) (writes_octet hb) (writes_octet hc) (writes_octet hd)

/-! ## Groups -/

theorem writes_group {n : Nat} (hn : n < 65536) : groupForm.Writes n (Nat.toDigits 16 n) := by
  refine NumberForm.writes_toDigits (by decide) (by decide) hn fun m hm => ?_
  obtain rfl : 4 = m := Option.some.inj hm
  exact ⟨by decide, hn⟩

/-- Groups with a colon before each. -/
def colonsBefore (groups : List Nat) : List Char :=
  groups.flatMap fun g => ':' :: Nat.toDigits 16 g

theorem groupChars_cons (g : Nat) (groups : List Nat) :
    groupChars (g :: groups) = Nat.toDigits 16 g ++ colonsBefore groups := by
  rw [groupChars, List.map_cons, intercalate_cons, List.flatMap_map]
  rfl

theorem groups_colonsBefore {gs : List Nat} (hgs : ∀ g ∈ gs, g < 65536) :
    Groups false false gs (colonsBefore gs) := by
  induction gs with
  | nil => exact .nil
  | cons g gs ih =>
    obtain ⟨hg, hgs⟩ := List.forall_mem_cons.mp hgs
    exact .cons (writes_group hg) (ih hgs)

theorem groups_groupChars {gs : List Nat} (hgs : ∀ g ∈ gs, g < 65536) :
    Groups true false gs (groupChars gs) := by
  cases gs with
  | nil => exact .nil
  | cons g gs =>
    obtain ⟨hg, hgs⟩ := List.forall_mem_cons.mp hgs
    rw [groupChars_cons]
    exact .cons (writes_group hg) (groups_colonsBefore hgs)

/-! ## IPv6 -/

theorem length_groups (bits : BitVec 128) : (groups bits).length = 8 := rfl

theorem lt_of_mem_groups {bits : BitVec 128} {g : Nat} (hg : g ∈ groups bits) : g < 65536 := by
  obtain ⟨i, -, rfl⟩ := List.mem_map.mp hg
  exact Nat.mod_lt _ (by decide)

theorem writtenV6_of_zeros {before after : List Nat} {run : Nat}
    (hgs : ∀ g ∈ before ++ after, g < 65536) (hrun : 1 < run)
    (hlen : before.length + run + after.length = 8) :
    WrittenV6 (ofGroups (before ++ List.replicate run 0 ++ after))
      (groupChars before ++ [':', ':'] ++ groupChars after) := by
  obtain ⟨hbefore, hafter⟩ := List.forall_mem_append.mp hgs
  have hwritten := WrittenV6.zeros (groups_groupChars hbefore) (groups_groupChars hafter) (by omega)
  have hmissing : 8 - before.length - after.length = run := by omega
  rw [hmissing] at hwritten
  rwa [List.append_assoc (groupChars before)]

/-! ### Mapped addresses -/

theorem ofGroups_mapped (bits : BitVec 32) :
    ofGroups (List.replicate 5 0 ++ 0xFFFF :: pairOfOctets (octets bits)) = mapped bits := by
  obtain ⟨a, b, c, d, hoctets, hbits, ha, hb, hc, hd⟩ := exists_octets bits
  have hmark : mappedMark.toNat = 0xFFFF := rfl
  apply BitVec.eq_of_toNat_eq
  rw [mapped, BitVec.toNat_append, ← Nat.shiftLeft_add_eq_or_of_lt bits.isLt, hmark, hbits, hoctets]
  simp only [ofGroups, pairOfOctets, ofDigits, List.replicate, List.cons_append, List.nil_append,
    List.foldl, BitVec.toNat_ofNat, Nat.shiftLeft_eq]
  omega

theorem writtenV6_mapped (bits : BitVec 32) :
    WrittenV6 (mapped bits) ("::ffff:".toList ++ v4Chars bits) := by
  have hafter : Groups true true (0xFFFF :: pairOfOctets (octets bits))
      ("ffff:".toList ++ v4Chars bits) :=
    .cons (writes_group (n := 0xFFFF) (by decide)) (.octets (octets_v4Chars bits))
  have hlen := (octets_v4Chars bits).length_pairOfOctets
  have hwritten := WrittenV6.zeros .nil hafter (by rw [List.length_cons, hlen]; decide)
  rw [List.length_cons, hlen, List.nil_append] at hwritten
  rwa [← ofGroups_mapped]

/-! ### The longest stretch of zeros -/

theorem eq_zeros_append (gs : List Nat) :
    gs = List.replicate (zerosAtFront gs) 0 ++ gs.drop (zerosAtFront gs) := by
  induction gs with
  | nil => rfl
  | cons g gs ih =>
    by_cases hg : g = 0
    · have hcount : zerosAtFront (g :: gs) = zerosAtFront gs + 1 := by
        simp [zerosAtFront, hg]
      rw [hcount, List.replicate_succ, List.drop_succ_cons, List.cons_append, ← ih, hg]
    · have hcount : zerosAtFront (g :: gs) = 0 := by simp [zerosAtFront, hg]
      rw [hcount]
      rfl

/-- The first of the longest stretches among those that start before a place. -/
structure LongestBefore (gs : List Nat) (place : Nat) (best : Nat × Nat) : Prop where
  run : best.2 = 0 ∨ best.2 = zerosAtFront (gs.drop best.1)
  le : ∀ i < place, zerosAtFront (gs.drop i) ≤ best.2
  lt : ∀ i < best.1, zerosAtFront (gs.drop i) < best.2

theorem LongestBefore.step {gs : List Nat} {place : Nat} {best : Nat × Nat}
    (h : LongestBefore gs place best) :
    LongestBefore gs (place + 1)
      (if best.2 < zerosAtFront (gs.drop place) then (place, zerosAtFront (gs.drop place))
        else best) := by
  split
  · rename_i hlonger
    have hbefore : ∀ i < place, zerosAtFront (gs.drop i) < zerosAtFront (gs.drop place) :=
      fun i hi => Nat.lt_of_le_of_lt (h.le i hi) hlonger
    refine ⟨Or.inr rfl, fun i hi => ?_, hbefore⟩
    rcases Nat.lt_succ_iff_lt_or_eq.mp hi with hi | rfl
    · exact Nat.le_of_lt (hbefore i hi)
    · exact Nat.le_refl _
  · rename_i hlonger
    refine ⟨h.run, fun i hi => ?_, h.lt⟩
    rcases Nat.lt_succ_iff_lt_or_eq.mp hi with hi | rfl
    · exact h.le i hi
    · exact Nat.le_of_not_lt hlonger

theorem longestZeros_spec (gs : List Nat) : LongestBefore gs gs.length (longestZeros gs) := by
  rw [longestZeros]
  generalize gs.length = places
  induction places with
  | zero => exact ⟨Or.inl rfl, nofun, nofun⟩
  | succ places ih =>
    rw [List.range_succ, List.foldl_append]
    exact ih.step

theorem eq_around_zeros {gs : List Nat} (hrun : (longestZeros gs).2 ≠ 0) :
    gs = gs.take (longestZeros gs).1 ++ List.replicate (longestZeros gs).2 0 ++
      gs.drop ((longestZeros gs).1 + (longestZeros gs).2) := by
  have hcount := (longestZeros_spec gs).run.resolve_left hrun
  have hzeros := eq_zeros_append (gs.drop (longestZeros gs).1)
  rw [← hcount, List.drop_drop] at hzeros
  rw [List.append_assoc, ← hzeros, List.take_append_drop]

/-! ## All addresses -/

theorem v6Chars_mapped (inner : BitVec 32) :
    v6Chars (mapped inner) = "::ffff:".toList ++ v4Chars inner := by
  rw [v6Chars, mapped?_mapped]

/-- The text leaves the first of the longest stretches of two or more zero groups out. -/
def LeavesZerosOut (bits : BitVec 128) (text : List Char) : Prop :=
  ∃ start run, LongestBefore (groups bits) 8 (start, run) ∧
    text = if 1 < run then
        groupChars ((groups bits).take start) ++ [':', ':'] ++
          groupChars ((groups bits).drop (start + run))
      else groupChars (groups bits)

theorem v6Chars_leavesZerosOut {bits : BitVec 128} (h : mapped? bits = none) :
    LeavesZerosOut bits (v6Chars bits) := by
  refine ⟨(longestZeros (groups bits)).1, (longestZeros (groups bits)).2,
    longestZeros_spec (groups bits), ?_⟩
  rw [v6Chars, h]

theorem writtenV6_v6Chars (bits : BitVec 128) : WrittenV6 bits (v6Chars bits) := by
  rw [v6Chars]
  cases hinner : mapped? bits with
  | some inner =>
    rw [eq_mapped_of_mapped? hinner]
    exact writtenV6_mapped inner
  | none =>
    have hgs : ∀ g ∈ groups bits, g < 65536 := fun g => lt_of_mem_groups
    have hlen := length_groups bits
    dsimp only
    split
    · rename_i hrun
      have heq := eq_around_zeros (Nat.ne_zero_of_lt hrun)
      have hsum := congrArg List.length heq
      rw [List.length_append, List.length_append, List.length_replicate, hlen] at hsum
      have hparts : ∀ i j, ∀ g ∈ (groups bits).take i ++ (groups bits).drop j, g < 65536 := by
        intro i j g hg
        rcases List.mem_append.mp hg with hg | hg
        · exact hgs g (List.mem_of_mem_take hg)
        · exact hgs g (List.mem_of_mem_drop hg)
      have hwritten := writtenV6_of_zeros (hparts _ _) hrun hsum.symm
      rwa [← heq, ofGroups_groups] at hwritten
    · have hwritten := WrittenV6.whole (groups_groupChars hgs) hlen
      rwa [ofGroups_groups] at hwritten

theorem writtenAs_chars (a : Address) : a.WrittenAs a.chars := by
  cases a with
  | v4 bits =>
    have hwritten := WrittenAs.v4 (octets_v4Chars bits)
    rwa [ofOctets_octets] at hwritten
  | v6 bits => exact .v6 (writtenV6_v6Chars bits)

/-- What is written for an address is read as this address. -/
theorem ofChars?_chars (a : Address) : ofChars? a.chars = some a :=
  ofChars?_eq_some_iff.mpr a.writtenAs_chars

end Address
end FeatureGates
