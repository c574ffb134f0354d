import FeatureGates.Evaluation
import FeatureGates.Flight
import FeatureGates.Settings
import FeatureGates.Store

/-!
Evaluators: they answer questions about gates for requests, from the hierarchy that a store
publishes at that time.
-/

namespace FeatureGates

structure Evaluator where
  store : Store
  settings : Settings := {}
  networks : NetworkLookup := fun _ => none
  identity : Identity := .customerOrAnonymous
  flightService : FlightService := .idle

/-- One gate in a listing. -/
structure ListedGate where
  name : String
  path : String
  group : Option String
  active : Bool
  reason : Reason

def ListedGate.of (g : Gate) (d : Decision) : ListedGate :=
  { name := g.name, path := g.path, group := g.group, active := d.active, reason := d.reason }

/-- All gates of a hierarchy with their decisions, the ones that no name finds included. -/
structure Listing where
  version : Nat
  gates : List ListedGate

namespace Evaluator

def options (e : Evaluator) : Options where
  networks := e.networks
  identity := e.identity
  defaultEnvironment := e.settings.defaultEnvironment
  trustForwarded := e.settings.trustForwardedFor

def view (e : Evaluator) : View := e.store.snapshot.view

def decision (e : Evaluator) (name : String) (r : Request) : Noted Decision :=
  e.view.decision name r e.options

def isActive (e : Evaluator) (name : String) (r : Request) : Noted Bool :=
  e.view.isActive name r e.options

def reportOn (e : Evaluator) (names : List String) (r : Request) : Noted Report :=
  e.view.reportOn names r e.options

def report (e : Evaluator) (r : Request) : Noted Report := e.view.report r e.options

/-- The flights that are assigned to a request in the time that the settings allow. -/
def flights (e : Evaluator) (r : Request) (cancelled : Option Nat) : Noted Flights :=
  let profile := FlightProfile.ofRequest r (e.identity.resolve r) e.settings.defaultEnvironment
  e.flightService.fetch profile e.settings.flightTimeout cancelled

/-- The report on all gates together with the flights.  Overrides are laid over both, after they
were brought together. -/
def reportWithFlights (e : Evaluator) (r : Request) (cancelled : Option Nat) : Noted Report := do
  let flights ← e.flights r cancelled
  let computed ← e.view.computed r e.options
  let joined ← computed.addFlights e.settings.collisionPolicy flights
  joined.amend e.view r.overrides

def listing (e : Evaluator) (r : Request) : Noted Listing :=
  (e.view.eachDecision r e.options).map fun decisions =>
    { version := e.store.version, gates := decisions.map fun (g, d) => ListedGate.of g d }

end Evaluator
end FeatureGates
