import FeatureGates.Json

/-!
Values with declared fields.  A record is written as an object, with its fields in any order, or as
an array of its fields in the order of their declaration.  In an object a field may have several
spellings but occurs once, and fields that were not declared are passed over; in an array trailing
fields may be missing.
-/

namespace FeatureGates
namespace Json

inductive Record where
  | named (members : List (String × Json))
  | listed (items : List Json)

/-- A member whose key is a text. -/
def textKey? (member : Option String × Json) : Option (String × Json) :=
  member.1.map (·, member.2)

/-- An object or an array as a record.  Every key must be a text, whether it names a declared field
or not. -/
def record? : Json → Option Record
  | .object members => (members.mapM textKey?).map .named
  | .array items => some (.listed items)
  | _ => none

namespace Record

/-- No array item is left when `n` fields are declared. -/
def fits (n : Nat) : Record → Bool
  | named _ => true
  | listed items => items.length ≤ n

/-- The value of the field declared at `position`, if it is there.  A field that occurs twice, under
one spelling or two, is a fault. -/
def field? (r : Record) (position : Nat) (spellings : List String) : Option (Option Json) :=
  match r with
  | named members =>
    match members.filter fun member => spellings.contains member.1 with
    | [] => some none
    | [(_, value)] => some (some value)
    | _ => none
  | listed items => some items[position]?

/-- Reads a field that may be missing. -/
def optional? {α : Type} (r : Record) (position : Nat) (spellings : List String) (missing : α)
    (read : Json → Option α) : Option α := do
  match ← r.field? position spellings with
  | none => return missing
  | some value => read value

/-- Reads a field that must be there. -/
def required? {α : Type} (r : Record) (position : Nat) (spellings : List String)
    (read : Json → Option α) : Option α := do
  read (← (← r.field? position spellings))

end Record
end Json
end FeatureGates
