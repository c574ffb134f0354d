import FeatureGates.Json.Numeral

/-!
JSON values as they are written.  Members of an object keep their order and their repetitions, and
numbers keep their digits: what a repeated key or a large number means is up to who reads them.
-/

namespace FeatureGates

/-- The content of a string literal is `none` when it names half of a surrogate pair with an
escape: such a literal is well formed but stands for no text. -/
inductive Json where
  | null
  | bool (value : Bool)
  | number (numeral : Numeral)
  | text (content : Option String)
  | array (items : List Json)
  | object (members : List (Option String × Json))
  deriving Inhabited

namespace Json

/-- How many containers may be nested in the parts of a text that are not passed over. -/
def nestingLimit : Nat := 127

def string (s : String) : Json := .text (some s)

def nat (n : Nat) : Json := .number (Numeral.ofNat n)

/-- The text of a string literal. -/
def text? : Json → Option String
  | .text content => content
  | _ => none

/-- A text, or nothing where `null` is written. -/
def nullOrText? : Json → Option (Option String)
  | .null => some none
  | j => j.text?.map some

def bool? : Json → Option Bool
  | .bool value => some value
  | _ => none

/-- A natural number below `bound`, written without sign, point and exponent. -/
def natural? (bound : Nat) : Json → Option Nat
  | .number numeral => numeral.natural?.filter (· < bound)
  | _ => none

/-- An array of texts. -/
def texts? : Json → Option (List String)
  | .array items => items.mapM text?
  | _ => none

/-- Every string in the value has a text, every number is in the range of a double, and no more
than `room` containers are nested. -/
def readable : (room : Nat) → Json → Bool
  | _, .null => true
  | _, .bool _ => true
  | _, .number numeral => !numeral.exceedsDouble
  | _, .text content => content.isSome
  | 0, .array _ => false
  | 0, .object _ => false
  | room + 1, .array items => items.all (readable room)
  | room + 1, .object members =>
    members.all fun member => member.1.isSome && readable room member.2

end Json
end FeatureGates
