import FeatureGates.Address.Printer

/-!
Networks: an address and how many of its leading bits count.  A network inside the mapped block is
kept in its IPv4 form, so a network has one representation in each family, and a client is matched
the same whichever form its address has.
-/

namespace FeatureGates

structure Network where
  address : Address
  /-- How many leading bits of an address decide. -/
  length : Nat
  length_le_width : length ≤ address.width
  /-- Such networks are kept in IPv4 form. -/
  not_mapped : ∀ bits, address = .v6 bits → (Address.mapped? bits).isSome →
    length < Address.mappedLength

namespace Network

/-- The IPv4 network with the given leading bits. -/
def ofV4 (bits : BitVec 32) (length : Nat) (h : length ≤ 32) : Network :=
  ⟨.v4 bits, length, h, by rintro _ ⟨⟩⟩

/-- The network of an address and a length, unless the length exceeds the address. -/
def of? (address : Address) (length : Nat) : Option Network :=
  if h : length ≤ address.width then
    match address, h with
    | .v4 bits, h => some (ofV4 bits length h)
    | .v6 bits, h =>
      if hm : (Address.mapped? bits).isSome ∧ Address.mappedLength ≤ length then
        some (ofV4 ((Address.mapped? bits).get hm.1) (length - Address.mappedLength)
          (by simp only [Address.width, Address.mappedLength] at *; omega))
      else
        some ⟨.v6 bits, length, h, fun b hb hs => by
          cases hb
          exact Nat.lt_of_not_le fun hle => hm ⟨hs, hle⟩⟩
  else none

/-- The network that holds one address only. -/
def single (address : Address) : Option Network := of? address address.width

/-- Two addresses have the same leading bits. -/
def agree {w : Nat} (a b : BitVec w) (length : Nat) : Bool :=
  length == 0 || a >>> (w - length) == b >>> (w - length)

/-- Whether the network holds an address.  Mapped addresses are matched in their IPv4 form, and a
short IPv6 network may still cover them. -/
def contains (n : Network) (address : Address) : Bool :=
  match n.address, address.canonical with
  | .v4 a, .v4 b => agree a b n.length
  | .v6 a, .v6 b => agree a b n.length
  | .v6 a, .v4 b => agree a (Address.mapped b) n.length
  | .v4 _, .v6 _ => false

def chars (n : Network) : List Char := n.address.chars ++ '/' :: Nat.toDigits 10 n.length

def toText (n : Network) : String := String.ofList n.chars

theorem of?_isSome_iff (address : Address) (length : Nat) :
    (of? address length).isSome ↔ length ≤ address.width := by
  unfold of?
  split
  · rename_i h
    cases address
    · simp [h]
    · simp only [h, iff_true]
      split <;> rfl
  · rename_i h
    simp [h]

end Network
end FeatureGates
