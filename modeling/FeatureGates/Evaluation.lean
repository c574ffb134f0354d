import FeatureGates.Identity
import FeatureGates.Report
import FeatureGates.Resolver

/-!
Evaluations: the decisions on one gate, on named gates, or on all gates of a view for a request.
Overrides are laid over the decisions last.
-/

namespace FeatureGates

/-- What an evaluation consults besides the gates and the request. -/
structure Options where
  networks : NetworkLookup := fun _ => none
  identity : Identity := .customerOrAnonymous
  /-- Assumed for requests that name no environment. -/
  defaultEnvironment : Option String := none
  trustForwarded : Bool := true

/-- Adds the decisions on the gates of the given names.  A gate is listed under its own name, and a
name that no gate has under itself. -/
def Scope.addNamed (s : Scope) : List String → Marks → Report → Noted Report
  | [], _, report => pure report
  | name :: rest, marks, report =>
    match s.view.named? name with
    | none => s.addNamed rest marks (report.add name (Decision.error .gateNotFound))
    | some g => do
      let (decision, marks) ← s.decide g marks
      s.addNamed rest marks (report.add g.name decision)

namespace View

/-- Gathers once what all gates share. -/
def scope (v : View) (r : Request) (o : Options) : Noted Scope :=
  (r.client o.trustForwarded).map fun client =>
    { view := v, campaigns := r.campaigns, customer := o.identity.resolve r, client,
      environment := r.environment.or o.defaultEnvironment, networks := o.networks }

/-- The decision on the gate of a name. -/
def decision (v : View) (name : String) (r : Request) (o : Options) : Noted Decision := do
  let s ← v.scope r o
  match v.named? name with
  | none => return Decision.error .gateNotFound
  | some g => return r.overrides.amend name (← s.decide g []).1

def isActive (v : View) (name : String) (r : Request) (o : Options) : Noted Bool :=
  (v.decision name r o).map (·.active)

/-- The report on the gates of the given names. -/
def reportOn (v : View) (names : List String) (r : Request) (o : Options) : Noted Report := do
  let s ← v.scope r o
  (← s.addNamed names [] .empty).amend v r.overrides

/-- The decisions on all gates by number, without overrides. -/
def decideAll (v : View) (r : Request) (o : Options) : Noted (List (Gate × Decision)) := do
  let s ← v.scope r o
  s.decideEach v.gates []

/-- The report on all gates, without overrides.  Of gates with one name the first counts. -/
def computed (v : View) (r : Request) (o : Options) : Noted Report :=
  (v.decideAll r o).map fun decisions =>
    decisions.foldl (fun report (g, decision) => report.add g.name decision) .empty

/-- The report on all gates. -/
def report (v : View) (r : Request) (o : Options) : Noted Report := do
  (← v.computed r o).amend v r.overrides

/-- The decisions on all gates by number. -/
def eachDecision (v : View) (r : Request) (o : Options) : Noted (List (Gate × Decision)) :=
  (v.decideAll r o).map fun decisions =>
    decisions.map fun (g, decision) => (g, r.overrides.amend g.name decision)

end View
end FeatureGates
