import FeatureGates.Text.Digits

/-!
Network addresses of the two families.  An IPv6 address may stand for an IPv4 address: those of the
block `::ffff:0:0/96` are called mapped, and hold the IPv4 address in their last 32 bits.
-/

namespace FeatureGates

inductive Address where
  | v4 (bits : BitVec 32)
  | v6 (bits : BitVec 128)
  deriving DecidableEq, Inhabited

namespace Address

/-- How many bits an address of this family has. -/
def width : Address → Nat
  | v4 _ => 32
  | v6 _ => 128

/-- The leading bits of every mapped address. -/
def mappedMark : BitVec 96 := 0xFFFF

/-- How many bits come before the IPv4 address in a mapped one. -/
def mappedLength : Nat := 96

/-- The mapped address that stands for an IPv4 address. -/
def mapped (bits : BitVec 32) : BitVec 128 := mappedMark ++ bits

/-- The IPv4 address that an IPv6 address stands for, if it is mapped. -/
def mapped? (bits : BitVec 128) : Option (BitVec 32) :=
  if bits.extractLsb' 32 96 = mappedMark then some (bits.extractLsb' 0 32) else none

/-- A mapped address in its IPv4 form; any other address as it is. -/
def canonical : Address → Address
  | v4 bits => v4 bits
  | v6 bits => match mapped? bits with
    | some inner => v4 inner
    | none => v6 bits

/-- The four octets of an IPv4 address, highest first. -/
def octets (bits : BitVec 32) : List Nat :=
  (List.range 4).map fun i => bits.toNat >>> (8 * (3 - i)) % 256

/-- The eight 16-bit groups of an IPv6 address, highest first. -/
def groups (bits : BitVec 128) : List Nat :=
  (List.range 8).map fun i => bits.toNat >>> (16 * (7 - i)) % 65536

def ofOctets (octets : List Nat) : BitVec 32 := BitVec.ofNat 32 (Text.ofDigits 256 octets)

def ofGroups (groups : List Nat) : BitVec 128 := BitVec.ofNat 128 (Text.ofDigits 65536 groups)

theorem mapped?_mapped (bits : BitVec 32) : mapped? (mapped bits) = some bits := by
  have hmark : (mapped bits).extractLsb' 32 96 = mappedMark := BitVec.extractLsb'_append_eq_left
  have hbits : (mapped bits).extractLsb' 0 32 = bits := BitVec.extractLsb'_append_eq_right
  simp [mapped?, hmark, hbits]

theorem eq_mapped_of_mapped? {bits : BitVec 128} {inner : BitVec 32}
    (h : mapped? bits = some inner) : bits = mapped inner := by
  simp only [mapped?] at h
  split at h
  · rename_i hmark
    cases h
    apply BitVec.eq_of_getLsbD_eq
    intro i hi
    simp only [mapped, ← hmark]
    rw [BitVec.getLsbD_append]
    by_cases h : i < 32
    · simp [h]
    · have hsum : 32 + (i - 32) = i := by omega
      have hlt : i - 32 < 96 := by omega
      simp [h, hsum, hlt]
  · cases h

theorem ofOctets_octets (bits : BitVec 32) : ofOctets (octets bits) = bits := by
  apply BitVec.eq_of_toNat_eq
  have h := bits.isLt
  simp only [ofOctets, Text.ofDigits, octets, List.range, List.range.loop, List.map, List.foldl,
    BitVec.toNat_ofNat]
  omega

theorem ofGroups_groups (bits : BitVec 128) : ofGroups (groups bits) = bits := by
  apply BitVec.eq_of_toNat_eq
  have h := bits.isLt
  simp only [ofGroups, Text.ofDigits, groups, List.range, List.range.loop, List.map, List.foldl,
    BitVec.toNat_ofNat]
  omega

end Address
end FeatureGates
