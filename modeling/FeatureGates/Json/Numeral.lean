/-!
Numbers as they are written in JSON.  A numeral keeps its digits, so nothing is rounded before it
is known what the number is for: settings are natural numbers of a bounded size, and elsewhere it
only matters whether the number is in the range of a double.
-/

namespace FeatureGates

structure Numeral where
  negative : Bool
  /-- The digits before the point. -/
  whole : List Char
  /-- The digits after the point, if there is one. -/
  fraction : Option (List Char)
  exponent : Option Int
  deriving DecidableEq

namespace Numeral

/-- The digits at the front, at least one, and the rest. -/
def digits? (cs : List Char) : Option (List Char × List Char) :=
  match cs.takeWhile Char.isDigit with
  | [] => none
  | ds => some (ds, cs.dropWhile Char.isDigit)

/-- Digits before the point; a leading zero stands alone. -/
def whole? (cs : List Char) : Option (List Char × List Char) :=
  (digits? cs).filter fun (ds, _) => ds.length = 1 || ds.head? != some '0'

def fraction? : List Char → Option (Option (List Char) × List Char)
  | '.' :: rest => (digits? rest).map fun (ds, rest) => (some ds, rest)
  | cs => some (none, cs)

def sign : List Char → Bool × List Char
  | '-' :: rest => (true, rest)
  | '+' :: rest => (false, rest)
  | cs => (false, cs)

def signed (negative : Bool) (n : Nat) : Int := if negative then -(n : Int) else n

def exponentDigits? (cs : List Char) : Option (Option Int × List Char) :=
  let (negative, cs) := sign cs
  (digits? cs).map fun (ds, rest) => (some (signed negative (Nat.ofDigitChars 10 ds 0)), rest)

def exponent? : List Char → Option (Option Int × List Char)
  | 'e' :: rest => exponentDigits? rest
  | 'E' :: rest => exponentDigits? rest
  | cs => some (none, cs)

def unsigned? (negative : Bool) (cs : List Char) : Option Numeral := do
  let (whole, cs) ← whole? cs
  let (fraction, cs) ← fraction? cs
  let (exponent, cs) ← exponent? cs
  if cs.isEmpty then some ⟨negative, whole, fraction, exponent⟩ else none

/-- Reads a whole word as a numeral. -/
def ofWord? : List Char → Option Numeral
  | '-' :: rest => unsigned? true rest
  | cs => unsigned? false cs

def ofNat (n : Nat) : Numeral := ⟨false, Nat.toDigits 10 n, none, none⟩

/-- The value of a numeral without sign, point and exponent. -/
def natural? (n : Numeral) : Option Nat :=
  if n.negative || n.fraction.isSome || n.exponent.isSome then none
  else some (Nat.ofDigitChars 10 n.whole 0)

def intChars : Int → List Char
  | .ofNat n => Nat.toDigits 10 n
  | .negSucc n => '-' :: Nat.toDigits 10 (n + 1)

def chars (n : Numeral) : List Char :=
  (if n.negative then ['-'] else []) ++ n.whole ++
    (n.fraction.map fun ds => '.' :: ds).getD [] ++
    (n.exponent.map fun e => 'e' :: intChars e).getD []

/-! ## The range of doubles

A numeral is judged by its leading digits, as many as 64 bits hold, and by the power of ten that
goes with them. -/

def digitValue (c : Char) : Nat := c.toNat - '0'.toNat

/-- Appends digits as long as the number fits into 64 bits; returns it and how many were
appended. -/
def appendDigits (n : Nat) : List Char → Nat × Nat
  | [] => (n, 0)
  | d :: ds =>
    if n * 10 + digitValue d < 18446744073709551616 then
      let (m, used) := appendDigits (n * 10 + digitValue d) ds
      (m, used + 1)
    else (n, 0)

/-- The leading digits and their power of ten. -/
def leading (n : Numeral) : Nat × Int :=
  let (front, used) := appendDigits 0 n.whole
  let (digits, places) := appendDigits front (n.fraction.getD [])
  (digits, (n.whole.length : Int) - used - places + n.exponent.getD 0)

/-- The nearest number with 53 significant bits; a tie goes to the even one. -/
def round53 (n : Nat) : Nat :=
  let extra := n.log2 + 1 - 53
  let quotient := n >>> extra
  let unit := 1 <<< extra
  let remainder := n % unit
  let up := unit < 2 * remainder ∨ unit = 2 * remainder ∧ quotient % 2 = 1
  (if up then quotient + 1 else quotient) <<< extra

/-- The number is too large for a double: the leading digits and the power of ten, each rounded
to a double, have a product that none holds. -/
def exceedsDouble (n : Numeral) : Bool :=
  let (digits, power) := n.leading
  digits ≠ 0 && 0 ≤ power &&
    (308 < power ||
      1 <<< 1024 ≤ round53 (round53 digits * round53 (Nat.pow 10 power.toNat)))

end Numeral
end FeatureGates
