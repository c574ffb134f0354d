import FeatureGates.Document.Reader
import FeatureGates.Hierarchy
import FeatureGates.Notice

/-!
Loading a hierarchy.  A document is valid if all names are well formed, no two siblings have the
same name, and no rollout asks for more than full exposure.  The first fault met is reported: the
names at the top come first, and after that, gate by gate in breadth-first order, the gate's
rollouts and then the names right inside it.  Gates that are not found by name, because an earlier
gate has it, are noticed.
-/

namespace FeatureGates

inductive DocumentFault where
  | invalidName (name path : String)
  | duplicate (name path : String)
  | exposure (path : String) (percentage : Nat)
  deriving DecidableEq

namespace DocumentFault

def message : DocumentFault → String
  | invalidName name path => "invalid gate name '" ++ name ++ "' at '" ++ path ++ "'"
  | duplicate name path => "duplicate gate name '" ++ name ++ "' at '" ++ path ++ "'"
  | exposure path percentage =>
    "rollout exposure " ++ toString percentage ++ " is out of range (0-100) for gate '" ++ path ++
      "'"

end DocumentFault

inductive LoadFault where
  /-- No JSON, or JSON of another shape. -/
  | malformed
  | document (fault : DocumentFault)
  deriving DecidableEq

namespace Hierarchy

def isNameChar (c : Char) : Bool := c.isAlphanum || c = '_' || c = '.' || c = '-'

/-- Names are made of ASCII letters, digits, underscores, points and hyphens. -/
def isValidName (name : String) : Bool := !name.toList.isEmpty && name.toList.all isNameChar

/-- The first fault among the names of siblings; `met` holds the folded names before them. -/
def nameFault? (container : Option String) (met : List String) :
    List (String × Definition) → Option DocumentFault
  | [] => none
  | (name, _) :: rest =>
    let path := Placement.pathBelow container name
    if !isValidName name then some (.invalidName name path)
    else if met.contains (Text.fold name) then some (.duplicate name path)
    else nameFault? container (Text.fold name :: met) rest

/-- The first rollout of a gate beyond full exposure. -/
def exposureFault? (path : String) (filters : List Filter) : Option DocumentFault :=
  (filters.filterMap Filter.exposure?).find? (Rollout.buckets < ·) |>.map (.exposure path)

/-- Notices that a name leads to another gate. -/
def noteShadow (h : Hierarchy) (g : Gate) : Noted Unit :=
  match h.gates.find? (·.key = g.key) with
  | some winner => if winner.id = g.id then pure () else note (.shadowed g.path winner.path)
  | none => pure ()

/-- The first fault in the gates of a document, and the notices given before it. -/
def inspect (h : Hierarchy) : List (Gate × Placement) → Noted (Option DocumentFault)
  | [] => pure none
  | (g, p) :: rest =>
    match exposureFault? g.path g.filters with
    | some fault => pure (some fault)
    | none => do
      noteShadow h g
      match nameFault? (some g.path) [] p.definition.children with
      | some fault => pure (some fault)
      | none => inspect h rest

/-- The hierarchy of a document, if the document is valid. -/
def ofDocument (d : Document) : Noted (Except DocumentFault Hierarchy) :=
  match nameFault? none [] d.gates with
  | some fault => pure (.error fault)
  | none =>
    let h : Hierarchy := { gates := d.toGates }
    (h.inspect (h.gates.zip (Placement.ofDocument d))).map fun
      | some fault => .error fault
      | none => .ok h

/-- The hierarchy of a JSON text. -/
def load (text : String) : Noted (Except LoadFault Hierarchy) :=
  match Document.parse? text with
  | none => pure (.error .malformed)
  | some d => (ofDocument d).map (·.mapError .document)

end Hierarchy
end FeatureGates
