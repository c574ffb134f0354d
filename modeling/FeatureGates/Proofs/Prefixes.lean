import FeatureGates.Network.Reader

/-!
Matching as agreement of prefixes.

All addresses have a place in one space of 128 bits, an IPv4 address that of its mapped form.
There a network is a prefix, whatever its family, and it holds the addresses that begin with it:
`contains_iff_sharePrefix`.  The cases of families in the test itself all come down to this law.
-/

namespace FeatureGates

/-! ## Prefixes -/

/-- Two addresses have the same first `n` bits. -/
def SharePrefix {w : Nat} (a b : BitVec w) (n : Nat) : Prop :=
  ∀ i < n, a.getMsbD i = b.getMsbD i

instance {w : Nat} (a b : BitVec w) (n : Nat) : Decidable (SharePrefix a b n) :=
  inferInstanceAs (Decidable (∀ i < n, _))

theorem sharePrefix_iff_shift {w n : Nat} (hn : n ≤ w) (a b : BitVec w) :
    SharePrefix a b n ↔ a >>> (w - n) = b >>> (w - n) := by
  have hbit : ∀ (x : BitVec w) {i : Nat}, i < n →
      x.getMsbD i = (x >>> (w - n)).getLsbD (n - 1 - i) := by
    intro x i hi
    have hplace : w - 1 - i = w - n + (n - 1 - i) := by omega
    rw [BitVec.getLsbD_ushiftRight, BitVec.getMsbD_eq_getLsbD, hplace,
      decide_eq_true (by omega : i < w), Bool.true_and]
  constructor
  · intro h
    refine BitVec.eq_of_getLsbD_eq fun j _ => ?_
    by_cases hj : j < n
    · have hplace : n - 1 - (n - 1 - j) = j := by omega
      have hsame := h (n - 1 - j) (by omega)
      rwa [hbit a (by omega), hbit b (by omega), hplace] at hsame
    · -- Beyond the prefix only zeros were shifted in.
      rw [BitVec.getLsbD_ushiftRight, BitVec.getLsbD_ushiftRight, BitVec.getLsbD_of_ge _ _ (by omega),
        BitVec.getLsbD_of_ge _ _ (by omega)]
  · intro h i hi
    rw [hbit a hi, hbit b hi, h]

namespace Address

/-! ## The common space -/

/-- The place of an address in the common space. -/
def embed : Address → BitVec 128
  | v4 bits => mapped bits
  | v6 bits => bits

/-- How many bits of the common space come before those of the family. -/
def offset : Address → Nat
  | v4 _ => mappedLength
  | v6 _ => 0

theorem embed_canonical (a : Address) : a.canonical.embed = a.embed := by
  cases a with
  | v4 bits => rfl
  | v6 bits =>
    rw [canonical]
    cases hm : mapped? bits with
    | none => rfl
    | some inner => exact (eq_mapped_of_mapped? hm).symm

/-- An address that keeps its IPv6 form is not mapped. -/
theorem mapped?_of_canonical {a : Address} {bits : BitVec 128} (ha : a.canonical = v6 bits) :
    mapped? bits = none := by
  cases a with
  | v4 _ => cases ha
  | v6 other =>
    rw [canonical] at ha
    cases hm : mapped? other with
    | none =>
      rw [hm] at ha
      cases ha
      exact hm
    | some inner =>
      rw [hm] at ha
      cases ha

theorem getMsbD_mapped_add (bits : BitVec 32) (i : Nat) :
    (mapped bits).getMsbD (mappedLength + i) = bits.getMsbD i := by
  have hinner : 96 ≤ mappedLength + i := Nat.le_add_right ..
  have hplace : mappedLength + i - 96 = i := Nat.add_sub_cancel_left ..
  rw [mapped, BitVec.getMsbD_append, if_pos hinner, hplace]

theorem getMsbD_mapped_of_lt (bits : BitVec 32) {i : Nat} (hi : i < mappedLength) :
    (mapped bits).getMsbD i = mappedMark.getMsbD i := by
  have houter : ¬96 ≤ i := Nat.not_le.mpr hi
  rw [mapped, BitVec.getMsbD_append, if_neg houter]

theorem sharePrefix_mapped_iff (a b : BitVec 32) (n : Nat) :
    SharePrefix (mapped a) (mapped b) (mappedLength + n) ↔ SharePrefix a b n := by
  constructor
  · intro h i hi
    have hbit := h (mappedLength + i) (by omega)
    rwa [getMsbD_mapped_add, getMsbD_mapped_add] at hbit
  · intro h i hi
    by_cases hlt : i < mappedLength
    · rw [getMsbD_mapped_of_lt a hlt, getMsbD_mapped_of_lt b hlt]
    · obtain ⟨j, rfl⟩ := Nat.exists_eq_add_of_le (Nat.not_lt.mp hlt)
      rw [getMsbD_mapped_add, getMsbD_mapped_add]
      exact h j (by omega)

/-- Whatever begins like a mapped address is one. -/
theorem mapped?_ne_none_of_sharePrefix {a : BitVec 32} {b : BitVec 128} {n : Nat}
    (h : SharePrefix (mapped a) b (mappedLength + n)) : mapped? b ≠ none := by
  have hshift : mapped a >>> 32 = b >>> 32 :=
    (sharePrefix_iff_shift (n := 96) (by decide) _ _).mp fun i hi =>
      h i (Nat.lt_of_lt_of_le hi (Nat.le_add_right ..))
  have hmark : b.extractLsb' 32 96 = mappedMark := by
    have hextract : ∀ x : BitVec 128, x.extractLsb' 32 96 = BitVec.ofNat 96 (x >>> 32).toNat :=
      fun _ => rfl
    rw [hextract, ← hshift, ← hextract]
    exact BitVec.extractLsb'_append_eq_left
  rw [mapped?, if_pos hmark]
  exact Option.some_ne_none _

end Address

namespace Network

/-! ## The law of matching -/

theorem agree_iff {w n : Nat} (hn : n ≤ w) (a b : BitVec w) :
    agree a b n = true ↔ SharePrefix a b n := by
  rw [agree, Bool.or_eq_true, beq_iff_eq, beq_iff_eq, sharePrefix_iff_shift hn]
  refine or_iff_right_of_imp fun hzero => ?_
  -- With an empty prefix everything is shifted out.
  exact (sharePrefix_iff_shift hn a b).mp fun i hi => absurd hi (hzero ▸ Nat.not_lt_zero i)

/-- A network holds the addresses that begin with its prefix. -/
theorem contains_iff_sharePrefix (n : Network) (a : Address) :
    n.contains a = true ↔
      SharePrefix n.address.embed a.embed (n.address.offset + n.length) := by
  obtain ⟨address, length, hlength, hmapped⟩ := n
  rw [← a.embed_canonical, contains]
  cases address with
  | v4 net =>
    cases ha : a.canonical with
    | v4 bits => exact (agree_iff hlength net bits).trans (Address.sharePrefix_mapped_iff ..).symm
    | v6 bits =>
      refine iff_of_false Bool.false_ne_true fun h => ?_
      exact Address.mapped?_ne_none_of_sharePrefix h (Address.mapped?_of_canonical ha)
  | v6 net =>
    show _ ↔ SharePrefix net a.canonical.embed (0 + length)
    rw [Nat.zero_add]
    cases a.canonical with
    | v4 bits => exact agree_iff hlength net (Address.mapped bits)
    | v6 bits => exact agree_iff hlength net bits

/-! ## Networks that are built -/

theorem of?_v4 {bits : BitVec 32} {length : Nat} (h : length ≤ 32) :
    of? (.v4 bits) length = some (ofV4 bits length h) := dif_pos h

theorem of?_v6_of_mapped {bits : BitVec 128} {inner : BitVec 32} {length : Nat}
    (hinner : Address.mapped? bits = some inner) (h : length ≤ 32) :
    of? (.v6 bits) (Address.mappedLength + length) = some (ofV4 inner length h) := by
  have hwide : Address.mappedLength + length ≤ (Address.v6 bits).width := Nat.add_le_add_left h 96
  have hm : (Address.mapped? bits).isSome = true ∧
      Address.mappedLength ≤ Address.mappedLength + length :=
    ⟨by rw [hinner]; rfl, Nat.le_add_right ..⟩
  have hlength : Address.mappedLength + length - Address.mappedLength = length :=
    Nat.add_sub_cancel_left ..
  refine (dif_pos hwide).trans ((dif_pos hm).trans ?_)
  simp only [Option.get_of_eq_some hm.1 hinner, hlength]

theorem of?_v6_of_short {bits : BitVec 128} {length : Nat} (h : length ≤ 128)
    (hshort : (Address.mapped? bits).isSome = true → length < Address.mappedLength) :
    of? (.v6 bits) length = some ⟨.v6 bits, length, h, by rintro _ ⟨⟩; exact hshort⟩ := by
  have hm : ¬((Address.mapped? bits).isSome = true ∧ Address.mappedLength ≤ length) := fun hm =>
    Nat.not_le.mpr (hshort hm.1) hm.2
  exact (dif_pos h).trans (dif_neg hm)

theorem of?_eq_none {net : Address} {length : Nat} (h : ¬length ≤ net.width) :
    of? net length = none := dif_neg h

/-- A mapped network and its IPv4 form are one. -/
theorem of?_mapped (bits : BitVec 32) (length : Nat) :
    of? (.v6 (Address.mapped bits)) (Address.mappedLength + length) = of? (.v4 bits) length := by
  by_cases h : length ≤ 32
  · rw [of?_v6_of_mapped (Address.mapped?_mapped bits) h, of?_v4 h]
  · have hwide : ¬Address.mappedLength + length ≤ (Address.v6 (Address.mapped bits)).width :=
      fun hle => h (Nat.le_of_add_le_add_left (a := 96) hle)
    have hnarrow : ¬length ≤ (Address.v4 bits).width := h
    rw [of?_eq_none hwide, of?_eq_none hnarrow]

/-- What is built has the prefix that it was built from. -/
theorem prefix_of_of? {net : Address} {length : Nat} {n : Network}
    (hn : of? net length = some n) :
    n.address.embed = net.embed ∧ n.address.offset + n.length = net.offset + length := by
  have hle : length ≤ net.width := (of?_isSome_iff net length).mp (by rw [hn]; rfl)
  cases net with
  | v4 bits =>
    rw [of?_v4 hle] at hn
    cases hn
    exact ⟨rfl, rfl⟩
  | v6 bits =>
    by_cases hm : (Address.mapped? bits).isSome = true ∧ Address.mappedLength ≤ length
    · obtain ⟨inner, hinner⟩ := Option.isSome_iff_exists.mp hm.1
      obtain ⟨rest, rfl⟩ := Nat.exists_eq_add_of_le hm.2
      have hrest : rest ≤ 32 := Nat.le_of_add_le_add_left (a := 96) hle
      rw [of?_v6_of_mapped hinner hrest] at hn
      cases hn
      exact ⟨(Address.eq_mapped_of_mapped? hinner).symm, (Nat.zero_add _).symm⟩
    · rw [of?_v6_of_short hle fun hs => Nat.not_le.mp fun hle' => hm ⟨hs, hle'⟩] at hn
      cases hn
      exact ⟨rfl, rfl⟩

theorem of_eq_ok_iff {net : Address} {length : Nat} {n : Network} :
    Network.of net length = .ok n ↔ of? net length = some n := by
  rw [Network.of]
  cases of? net length <;> simp

/-! ## The test with its shifts checked -/

/-- How far both sides are shifted, as a 32-bit number for operands of 128 bits.  There is no
answer where the difference would fall below zero or everything would be shifted out. -/
def shiftAmount? (width length : Nat) : Option Nat :=
  if length ≤ width ∧ width - length < 128 then some (width - length) else none

def agree? (width : Nat) (a b : BitVec 128) (length : Nat) : Option Bool :=
  if length = 0 then some true
  else (shiftAmount? width length).map fun amount => a >>> amount == b >>> amount

/-- Whether the network holds an address, if all shifts on the way are possible. -/
def contains? (n : Network) (address : Address) : Option Bool :=
  match n.address, address.canonical with
  | .v4 a, .v4 b => agree? 32 (a.setWidth 128) (b.setWidth 128) n.length
  | .v6 a, .v6 b => agree? 128 a b n.length
  | .v6 a, .v4 b => agree? 128 a (Address.mapped b) n.length
  | .v4 _, .v6 _ => some false

theorem agree?_eq {w length : Nat} (hw : w ≤ 128) (hlength : length ≤ w) (a b : BitVec w) :
    agree? w (a.setWidth 128) (b.setWidth 128) length = some (agree a b length) := by
  rw [agree?, agree]
  by_cases hzero : length = 0
  · simp [hzero]
  · have hamount : shiftAmount? w length = some (w - length) :=
      if_pos ⟨hlength, by omega⟩
    have hshift : ∀ x : BitVec w, ((x.setWidth 128) >>> (w - length)).toNat =
        (x >>> (w - length)).toNat := by
      intro x
      rw [BitVec.toNat_ushiftRight, BitVec.toNat_ushiftRight, BitVec.toNat_setWidth_of_le hw]
    rw [if_neg hzero, hamount, Option.map_some, Option.some_inj, Bool.eq_iff_iff]
    simp only [beq_iff_eq, Bool.or_eq_true, hzero, false_or, ← BitVec.toNat_inj, hshift]

/-- No shift is impossible, however the network was come by. -/
theorem contains?_eq (n : Network) (a : Address) : n.contains? a = some (n.contains a) := by
  obtain ⟨address, length, hlength, hmapped⟩ := n
  have hwide : ∀ x y : BitVec 128, length ≤ 128 →
      agree? 128 x y length = some (agree x y length) := by
    intro x y hle
    have heq := agree?_eq (Nat.le_refl 128) hle x y
    rwa [BitVec.setWidth_eq, BitVec.setWidth_eq] at heq
  rw [contains?, contains]
  cases address with
  | v4 net =>
    cases a.canonical with
    | v4 bits => exact agree?_eq (w := 32) (by decide) hlength net bits
    | v6 bits => rfl
  | v6 net =>
    cases a.canonical with
    | v4 bits => exact hwide net (Address.mapped bits) hlength
    | v6 bits => exact hwide net bits hlength

/-- Matching is agreement of prefixes in the common space, for every network that can be built: an
address and its mapped form are matched alike, a network and its mapped form are one, and no
network leads to a shift that is not possible. -/
theorem matching_by_prefix :
    (∀ net length, (∃ n, Network.of net length = .ok n) ↔ length ≤ net.width) ∧
    (∀ net length n, Network.of net length = .ok n → ∀ a,
      n.contains a = true ↔ SharePrefix net.embed a.embed (net.offset + length)) ∧
    (∀ (n : Network) bits, n.contains (.v4 bits) = n.contains (.v6 (Address.mapped bits))) ∧
    (∀ bits length, length ≤ 32 → ∃ n, Network.of (.v4 bits) length = .ok n ∧
      Network.of (.v6 (Address.mapped bits)) (Address.mappedLength + length) = .ok n) ∧
    ∀ (n : Network) a, n.contains? a = some (n.contains a) := by
  refine ⟨fun net length => ?_, fun net length n hn a => ?_, fun n bits => ?_,
    fun bits length hlength => ?_, contains?_eq⟩
  · rw [← of?_isSome_iff, Option.isSome_iff_exists]
    exact exists_congr fun n => of_eq_ok_iff
  · obtain ⟨hembed, hlength⟩ := prefix_of_of? (of_eq_ok_iff.mp hn)
    rw [contains_iff_sharePrefix, hembed, hlength]
  · rw [Bool.eq_iff_iff, contains_iff_sharePrefix, contains_iff_sharePrefix]
    exact Iff.rfl
  · have hbuilt : of? (.v4 bits) length = some _ := of?_v4 hlength
    exact ⟨_, of_eq_ok_iff.mpr hbuilt, of_eq_ok_iff.mpr ((of?_mapped bits length).trans hbuilt)⟩

/-- `::ffff:10.0.0.0/104`, which is `10.0.0.0/8`, and `::ffff:0:0/80`, which covers all mapped
addresses. -/
theorem matching_by_prefix_mapped :
    let inside : Address := .v4 0x0A141E28
    let outside : Address := .v4 0x0B000001
    ∃ n m, Network.of (.v4 0x0A000000) 8 = .ok n ∧
      Network.of (.v6 (Address.mapped 0x0A000000)) 104 = .ok n ∧
      n.contains inside = true ∧ n.contains outside = false ∧ n.contains? outside = some false ∧
      Network.of (.v6 (Address.mapped 0)) 80 = .ok m ∧ m.contains inside = true := by
  intro inside outside
  obtain ⟨hbuilt, hlaw, -, hform, hshift⟩ := matching_by_prefix
  obtain ⟨n, hn, hmapped⟩ := hform 0x0A000000 8 (by decide)
  obtain ⟨m, hm⟩ := (hbuilt (.v6 (Address.mapped 0)) 80).mpr (by decide)
  have houtside : n.contains outside = false :=
    Bool.eq_false_iff.mpr ((not_congr (hlaw _ _ n hn outside)).mpr (by decide +kernel))
  exact ⟨n, m, hn, hmapped, (hlaw _ _ n hn inside).mpr (by decide +kernel), houtside,
    (hshift n outside).trans (congrArg some houtside), hm,
    (hlaw _ _ m hm inside).mpr (by decide +kernel)⟩

end Network
end FeatureGates
