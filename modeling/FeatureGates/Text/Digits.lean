/-!
Digits of positional notation.
-/

namespace FeatureGates
namespace Text

/-- The value of a hexadecimal digit in either case, and so of a decimal one. -/
def digitValue? (c : Char) : Option Nat :=
  if '0' ≤ c ∧ c ≤ '9' then some (c.toNat - '0'.toNat)
  else if 'a' ≤ c ∧ c ≤ 'f' then some (c.toNat - 'a'.toNat + 10)
  else if 'A' ≤ c ∧ c ≤ 'F' then some (c.toNat - 'A'.toNat + 10)
  else none

/-- All digits of the given base at the front of a text, and what follows them. -/
def takeDigits (base : Nat) : List Char → List Nat × List Char
  | [] => ([], [])
  | c :: rest =>
    match digitValue? c with
    | some d =>
      if d < base then
        let (ds, rest) := takeDigits base rest
        (d :: ds, rest)
      else ([], c :: rest)
    | none => ([], c :: rest)

/-- The number with the given digits, highest first. -/
def ofDigits (base : Nat) (digits : List Nat) : Nat :=
  digits.foldl (fun n d => n * base + d) 0

/-- The number that a text writes, if it consists of digits and the number is below `bound`. -/
def number? (base bound : Nat) (cs : List Char) : Option Nat :=
  match takeDigits base cs with
  | ([], _) => none
  | (_, _ :: _) => none
  | (ds, []) => if ofDigits base ds < bound then some (ofDigits base ds) else none

/-- Bytes in lowercase hexadecimal digits, two for each. -/
def hexPairs (bytes : List UInt8) : List Char :=
  bytes.flatMap fun b => [(b.toNat / 16).digitChar, (b.toNat % 16).digitChar]

end Text
end FeatureGates
