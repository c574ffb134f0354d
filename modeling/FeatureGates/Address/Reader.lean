import FeatureGates.Address

/-!
Reading addresses.  An IPv4 address is four decimal octets; an IPv6 address is eight groups of
hexadecimal digits, of which one stretch of zero groups may be left out as `::` and the last two
may be written as an IPv4 address.  Every reader takes what it can from the front of a text and
returns the rest.
-/

namespace FeatureGates
namespace Address

/-- How a number may be written: the base, how many digits it may have, whether it may start with
a zero that is not its only digit, and a bound that it must stay under. -/
structure NumberForm where
  base : Nat
  maxDigits : Option Nat
  leadingZero : Bool
  bound : Nat

/-- Reads all digits that are there.  Digits beyond the permitted ones are a fault, and not left
for what follows. -/
def NumberForm.read? (form : NumberForm) (cs : List Char) : Option (Nat × List Char) :=
  let (ds, rest) := Text.takeDigits form.base cs
  let value := Text.ofDigits form.base ds
  if ds.isEmpty then none
  else if (form.maxDigits.map fun n => decide (n < ds.length)).getD false then none
  else if !form.leadingZero && ds.head? == some 0 && 1 < ds.length then none
  else if form.bound ≤ value then none
  else some (value, rest)

def octetForm : NumberForm := ⟨10, some 3, false, 256⟩

def groupForm : NumberForm := ⟨16, some 4, true, 65536⟩

def portForm : NumberForm := ⟨10, none, true, 65536⟩

/-- The number that names an interface after a `%`. -/
def scopeForm : NumberForm := ⟨10, none, true, 4294967296⟩

def skip? (c : Char) : List Char → Option (List Char)
  | [] => none
  | d :: rest => if d = c then some rest else none

/-- Four octets with dots between them. -/
def readOctets? (cs : List Char) : Option (List Nat × List Char) := do
  let (a, cs) ← octetForm.read? cs
  let (b, cs) ← octetForm.read? (← skip? '.' cs)
  let (c, cs) ← octetForm.read? (← skip? '.' cs)
  let (d, cs) ← octetForm.read? (← skip? '.' cs)
  return ([a, b, c, d], cs)

def readV4? (cs : List Char) : Option (BitVec 32 × List Char) :=
  (readOctets? cs).map fun (octets, rest) => (ofOctets octets, rest)

/-- The two groups that an IPv4 address fills. -/
def pairOfOctets : List Nat → List Nat
  | [a, b, c, d] => [a * 256 + b, c * 256 + d]
  | _ => []

/-- A colon, except before the first group. -/
def skipColon? (first : Bool) (cs : List Char) : Option (List Char) :=
  if first then some cs else skip? ':' cs

/-- What a stretch of groups was read as. -/
structure Stretch where
  groups : List Nat
  /-- It ended with an IPv4 address. -/
  dotted : Bool
  rest : List Char

/-- Reads groups with colons between them, until one is missing or there are `room` of them.  With
room for two more an IPv4 address is tried before a group, and it ends the stretch. -/
def readGroups : (room : Nat) → (first : Bool) → List Char → Stretch
  | 0, _, cs => ⟨[], false, cs⟩
  | room + 1, first, cs =>
    match if room = 0 then none else (skipColon? first cs).bind readOctets? with
    | some (octets, rest) => ⟨pairOfOctets octets, true, rest⟩
    | none =>
      match (skipColon? first cs).bind groupForm.read? with
      | none => ⟨[], false, cs⟩
      | some (group, rest) =>
        let tail := readGroups room false rest
        { tail with groups := group :: tail.groups }

/-- Eight groups, or fewer with `::` in the place of those left out.  An IPv4 address may only come
last, so not before `::`. -/
def readV6? (cs : List Char) : Option (BitVec 128 × List Char) :=
  let head := readGroups 8 true cs
  if head.groups.length = 8 then some (ofGroups head.groups, head.rest)
  else if head.dotted then none
  else do
    let cs ← skip? ':' (← skip? ':' head.rest)
    let tail := readGroups (7 - head.groups.length) true cs
    let zeros := List.replicate (8 - head.groups.length - tail.groups.length) 0
    return (ofGroups (head.groups ++ zeros ++ tail.groups), tail.rest)

def read? (cs : List Char) : Option (Address × List Char) :=
  match readV4? cs with
  | some (bits, rest) => some (v4 bits, rest)
  | none => (readV6? cs).map fun (bits, rest) => (v6 bits, rest)

/-- A result that used up the whole text. -/
def whole? {α : Type} : Option (α × List Char) → Option α
  | some (a, []) => some a
  | _ => none

def ofChars? (cs : List Char) : Option Address := whole? (read? cs)

def parse? (s : String) : Option Address := ofChars? s.toList

def readPort? (cs : List Char) : Option (Nat × List Char) := do
  portForm.read? (← skip? ':' cs)

/-- The number of an interface, where there is one. -/
def skipScope (cs : List Char) : List Char :=
  match (skip? '%' cs).bind scopeForm.read? with
  | some (_, rest) => rest
  | none => cs

/-- The address of an endpoint.  An endpoint is an IPv4 address, or an IPv6 address in brackets and
perhaps with the number of an interface, and after it a colon and a number. -/
def readEndpoint? (cs : List Char) : Option (Address × List Char) :=
  let plain : Option (Address × List Char) := do
    let (bits, cs) ← readV4? cs
    let (_, cs) ← readPort? cs
    return (v4 bits, cs)
  let bracketed : Option (Address × List Char) := do
    let (bits, cs) ← readV6? (← skip? '[' cs)
    let (_, cs) ← readPort? (← skip? ']' (skipScope cs))
    return (v6 bits, cs)
  plain <|> bracketed

def ofEndpoint? (cs : List Char) : Option Address := whole? (readEndpoint? cs)

end Address
end FeatureGates
