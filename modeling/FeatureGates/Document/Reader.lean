import FeatureGates.Document
import FeatureGates.Filter.Reader

/-!
Gate documents in JSON.  Documents and gates are records; gates stand under their names in an
object, whose order and repetitions are kept.
-/

namespace FeatureGates

namespace Definition

/-- Reads the filters of a gate where `room` more containers may be nested. -/
def filters? : (room : Nat) → Json → Option (List Filter)
  | room + 1, .array items => items.mapM (Filter.ofJson? room)
  | _, _ => none

mutual
/-- Reads a gate where `room` more containers may be nested. -/
def ofJson? : (room : Nat) → Json → Option Definition
  | 0, _ => none
  | room + 1, j => do
    let r ← j.record?
    guard (r.fits 3)
    let group ← r.optional? 0 ["group", "groupName"] none Json.nullOrText?
    let filters ← r.optional? 1 ["filters"] [] (filters? room)
    let children ← r.optional? 2 ["children"] [] (siblings? room)
    return { group, filters, children }

/-- Reads gates under their names. -/
def siblings? : (room : Nat) → Json → Option (List (String × Definition))
  | room + 1, .object members =>
    members.mapM fun member => do return (← member.1, ← ofJson? room member.2)
  | _, _ => none
end

end Definition

namespace Document

def ofJson? (j : Json) : Option Document := do
  let r ← j.record?
  guard (r.fits 1)
  let gates ← r.optional? 0 ["gates"] [] (Definition.siblings? (Json.nestingLimit - 1))
  return { gates }

def parse? (text : String) : Option Document := (Json.parse? text).bind ofJson?

end Document
end FeatureGates
