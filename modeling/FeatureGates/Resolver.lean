import FeatureGates.Decision
import FeatureGates.Notice
import FeatureGates.View

/-!
Deciding gates.  A gate is on if its container is on and all its filters pass, where a parent filter
passes if the gate it names is on.  Each gate is decided once for a request.  Containers and parent
filters may lead back to a gate that is still being decided; that reference is noticed and counts as
off.
-/

namespace FeatureGates

/-- What all gates of one evaluation share. -/
structure Scope where
  view : View
  campaigns : List String
  customer : Option String
  client : Option Address
  environment : Option String
  networks : NetworkLookup

def Scope.circumstances (s : Scope) (gate : String) : Circumstances :=
  { gate, campaigns := s.campaigns, customer := s.customer, client := s.client,
    environment := s.environment, networks := s.networks }

/-- How far the decision on a gate has come. -/
inductive Progress where
  | inProgress
  | decided (decision : Decision)
  deriving DecidableEq

/-- The progress of the gates that were reached, latest first.  An association list, because the
latest entry for a gate is the one that counts and a lookup after an entry is one comparison. -/
abbrev Marks := List (Nat × Progress)

namespace Marks

def find? (m : Marks) (id : Nat) : Option Progress := m.lookup id

def set (m : Marks) (id : Nat) (p : Progress) : Marks := (id, p) :: m

theorem find?_set (m : Marks) (id other : Nat) (p : Progress) :
    (m.set id p).find? other = if other = id then some p else m.find? other := by
  by_cases h : other = id
  · simp [find?, set, h]
  · have hne : (other == id) = false := by simpa using h
    simp [find?, set, List.lookup_cons, h, hne]

end Marks

namespace Resolver

/-- Decides a gate, given the marks of the gates reached before. -/
abbrev Visit := Gate → Marks → Noted (Decision × Marks)

/-- Whether a filter passes; only a parent filter visits a gate. -/
def filterPasses (s : Scope) (visit : Visit) (g : Gate) (marks : Marks) :
    Filter → Noted (Bool × Marks)
  | .condition c => pure (c.holds (s.circumstances g.name), marks)
  | .parent name =>
    match s.view.named? name with
    | some parent => do
      let (decision, marks) ← visit parent marks
      return (decision.active, marks)
    | none => do
      note (.unknownParent name)
      return (false, marks)

/-- Goes through the filters from number `index` on, up to the first that does not pass. -/
def resolveFilters (s : Scope) (visit : Visit) (g : Gate) :
    (index : Nat) → List Filter → Marks → Noted (Decision × Marks)
  | _, [], marks => pure (Decision.passed, marks)
  | index, filter :: rest, marks => do
    let (passed, marks) ← filterPasses s visit g marks filter
    if passed then resolveFilters s visit g (index + 1) rest marks
    else return (Decision.filterFailed index filter.kind, marks)

/-- The container is looked at first; the filters of a gate inside a gate that is off do not
matter. -/
def resolve (s : Scope) (visit : Visit) (g : Gate) (marks : Marks) : Noted (Decision × Marks) :=
  match g.container with
  | none => resolveFilters s visit g 0 g.filters marks
  | some id =>
    match s.view.gate? id with
    | none => pure (Decision.error .gateNotFound, marks)
    | some container => do
      let (decision, marks) ← visit container marks
      if decision.active then resolveFilters s visit g 0 g.filters marks
      else return (Decision.containerInactive container.name, marks)

/-- Decides a gate unless it was decided before.  Every gate on the way to it is in progress, so
`depth` need not exceed the number of gates. -/
def visit (s : Scope) (depth : Nat) (g : Gate) (marks : Marks) : Noted (Decision × Marks) :=
  match marks.find? g.id with
  | some (.decided decision) => pure (decision, marks)
  | some .inProgress => do
    note (.cycle g.name g.path)
    return (Decision.error .cycleDetected, marks)
  | none =>
    match depth with
    | 0 => pure (Decision.error .cycleDetected, marks)
    | depth + 1 => do
      let (decision, marks) ← resolve s (visit s depth) g (marks.set g.id .inProgress)
      return (decision, marks.set g.id (.decided decision))

end Resolver

/-- Decides a gate at the top of an evaluation. -/
def Scope.decide (s : Scope) (g : Gate) (marks : Marks) : Noted (Decision × Marks) :=
  Resolver.visit s s.view.size g marks

/-- Decides gates one after another. -/
def Scope.decideEach (s : Scope) : List Gate → Marks → Noted (List (Gate × Decision))
  | [], _ => pure []
  | g :: rest, marks => do
    let (decision, marks) ← s.decide g marks
    return (g, decision) :: (← s.decideEach rest marks)

end FeatureGates
