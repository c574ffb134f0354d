import FeatureGates.Address.Reader
import FeatureGates.Network
import FeatureGates.Text.Blank

/-!
Reading networks.  A network is written as an address, a slash and a length, or as a bare address
that stands for itself only.
-/

namespace FeatureGates

inductive NetworkFault where
  | address
  | length
  /-- The length is a number but exceeds the address it was written with. -/
  | tooLong
  /-- The same for an address and a length that were given apart. -/
  | tooLongForFamily
  deriving DecidableEq

/-- Why a text is no network; `input` is the text as it was given. -/
structure NetworkError where
  input : String
  fault : NetworkFault
  deriving DecidableEq

namespace NetworkFault

def message : NetworkFault → String
  | address => "invalid address"
  | length => "invalid prefix length"
  | tooLong => "prefix length is too long"
  | tooLongForFamily => "prefix length is too long for the address family"

end NetworkFault

def NetworkError.message (e : NetworkError) : String :=
  "invalid IP range '" ++ e.input ++ "': " ++ e.fault.message

namespace Network

/-- Lengths are written in decimal, and one plus sign before the digits is let pass. -/
def readLength? (cs : List Char) : Option Nat :=
  let cs := match cs with
    | '+' :: rest => rest
    | cs => cs
  Address.whole? (Address.NumberForm.read? ⟨10, none, true, 256⟩ cs)

/-- The network of an address and a length that were given apart. -/
def of (address : Address) (length : Nat) : Except NetworkError Network :=
  match of? address length with
  | some n => .ok n
  | none =>
    let input := address.chars ++ '/' :: Nat.toDigits 10 length
    .error ⟨String.ofList input, .tooLongForFamily⟩

/-- The parts before and after the first slash, if there is one. -/
def splitSlash (cs : List Char) : List Char × Option (List Char) :=
  match cs.span (· != '/') with
  | (front, []) => (front, none)
  | (front, _ :: rest) => (front, some rest)

def readChars (cs : List Char) : Except NetworkFault Network :=
  let (front, length) := splitSlash cs
  match Address.ofChars? front with
  | none => .error .address
  | some address =>
    match length with
    | none => (single address).elim (.error .tooLong) .ok
    | some digits =>
      match readLength? digits with
      | none => .error .length
      | some n => (of? address n).elim (.error .tooLong) .ok

/-- Reads a network; white space around it does not matter. -/
def parse (s : String) : Except NetworkError Network :=
  (readChars (Text.trimmed s.toList)).mapError fun fault => ⟨s, fault⟩

end Network
end FeatureGates
