import FeatureGates.Document
import FeatureGates.Text.Folding

/-!
Hierarchies: the gates of a document in breadth-first order, each under its number.  A gate's
container comes before it, and among gates of one name the first, which is the shallowest, is the
one found by name.
-/

namespace FeatureGates

structure Gate where
  id : Nat
  /-- As written in the document. -/
  name : String
  /-- The name as it is sought. -/
  key : String
  key_eq : key = Text.fold name
  /-- The names from the root down to the gate, with slashes between them. -/
  path : String
  group : Option String
  filters : List Filter
  /-- The gate around this one. -/
  container : Option Nat
  children : List Nat

structure Hierarchy where
  gates : List Gate
  /-- Given by the store that publishes the hierarchy, and 0 before. -/
  version : Nat := 0

namespace Hierarchy

def empty : Hierarchy := { gates := [] }

def size (h : Hierarchy) : Nat := h.gates.length

def isEmpty (h : Hierarchy) : Bool := h.gates.isEmpty

def gate? (h : Hierarchy) (id : Nat) : Option Gate := h.gates[id]?

/-- The first gate with a name, ignoring case. -/
def named? (h : Hierarchy) (name : String) : Option Gate :=
  let key := Text.fold name
  h.gates.find? (·.key = key)

/-- The gates that are in no other gate. -/
def roots (h : Hierarchy) : List Gate := h.gates.filter (·.container.isNone)

end Hierarchy

/-- A definition and its place in the document. -/
structure Placement where
  name : String
  path : String
  container : Option Nat
  definition : Definition

namespace Placement

/-- The path of a gate below a container with a path. -/
def pathBelow (container : Option String) (name : String) : String :=
  match container with
  | none => name
  | some path => path ++ "/" ++ name

/-- The placements of siblings; a container is given by its number and its path. -/
def ofSiblings (container : Option (Nat × String)) (siblings : List (String × Definition)) :
    List Placement :=
  siblings.map fun (name, definition) =>
    { name, path := pathBelow (container.map (·.2)) name, container := container.map (·.1),
      definition }

def children (p : Placement) (id : Nat) : List Placement :=
  ofSiblings (some (id, p.path)) p.definition.children

/-- The gates inside the gates of a level whose first gate has number `first`. -/
def nextLevel (first : Nat) (level : List Placement) : List Placement :=
  (level.zipIdx first).flatMap fun (p, id) => p.children id

/-- A level and the levels below it, `depth` of them in all. -/
def levelsFrom : (depth first : Nat) → List Placement → List Placement
  | 0, _, _ => []
  | depth + 1, first, level =>
    level ++ levelsFrom depth (first + level.length) (nextLevel first level)

/-- All definitions of a document, level by level. -/
def ofDocument (d : Document) : List Placement :=
  levelsFrom (Definition.heights d.gates) 0 (ofSiblings none d.gates)

def toGate (p : Placement) (id firstChild : Nat) : Gate where
  id := id
  name := p.name
  key := Text.fold p.name
  key_eq := rfl
  path := p.path
  group := p.definition.group
  filters := p.definition.filters
  container := p.container
  children := List.range' firstChild p.definition.children.length

/-- Numbers gates from `id` on.  The children of one gate follow those of the gate before it, so it
is enough to know the number of the first child. -/
def number : (id firstChild : Nat) → List Placement → List Gate
  | _, _, [] => []
  | id, firstChild, p :: rest =>
    p.toGate id firstChild :: number (id + 1) (firstChild + p.definition.children.length) rest

theorem length_number (id firstChild : Nat) (l : List Placement) :
    (number id firstChild l).length = l.length := by
  induction l generalizing id firstChild with
  | nil => rfl
  | cons p rest ih => simp [number, ih]

end Placement

/-- The gates of a document, valid or not. -/
def Document.toGates (d : Document) : List Gate :=
  Placement.number 0 d.gates.length (Placement.ofDocument d)

end FeatureGates
