import FeatureGates.Decision
import FeatureGates.Directory
import FeatureGates.Notice
import FeatureGates.Overrides
import FeatureGates.View

/-!
Reports: the decisions on gates by name, and the flights by name.  Names of gates and names of
flights are kept apart; a policy settles what becomes of a flight that has the name of a gate.
-/

namespace FeatureGates

/-- Values of flights by name. -/
abbrev Flights := Directory String

/-- What happens to a flight that has the name of a gate. -/
inductive CollisionPolicy where
  /-- The flight is dropped. -/
  | reject
  /-- The flight stays and turns the gate on. -/
  | lastWriterWins
  deriving DecidableEq

structure Report where
  gates : Directory Decision
  flights : Flights

namespace Report

def empty : Report := ⟨.empty, .empty⟩

/-- The gate that has a name, ignoring case: its own spelling and the decision. -/
def entry? (r : Report) (name : String) : Option (String × Decision) :=
  let key := Text.fold name
  r.gates.entries.find? fun entry => Text.fold entry.1 = key

def get? (r : Report) (name : String) : Option Decision := (r.entry? name).map (·.2)

/-- The value of the first flight that has a name, ignoring case. -/
def flight? (r : Report) (name : String) : Option String :=
  let key := Text.fold name
  (r.flights.entries.find? fun entry => Text.fold entry.1 = key).map (·.2)

/-- The name is that of a gate that is on, or of a flight and of no gate. -/
def isActive (r : Report) (name : String) : Bool :=
  match r.get? name with
  | some decision => decision.active
  | none => (r.flight? name).isSome

/-- The gates that are on and then the flights. -/
def active (r : Report) : List String :=
  (r.gates.filter fun _ decision => decision.active).names ++ r.flights.names

/-- Adds the decision on a gate, unless there is one under this name already. -/
def add (r : Report) (name : String) (decision : Decision) : Report :=
  match r.entry? name with
  | some _ => r
  | none => { r with gates := r.gates.insert name decision }

/-- Brings in one flight. -/
def addFlight (policy : CollisionPolicy) (r : Report) (flight value : String) : Noted Report :=
  match r.entry? flight with
  | none => pure { r with flights := r.flights.insert flight value }
  | some (gate, _) =>
    match policy with
    | .reject => do
      note (.flightCollision flight false)
      return r
    | .lastWriterWins => do
      note (.flightCollision flight true)
      return ⟨r.gates.insert gate Decision.flight, r.flights.insert flight value⟩

/-- Brings in flights in the order of their names. -/
def addFlights (policy : CollisionPolicy) (r : Report) (flights : Flights) : Noted Report :=
  flights.entries.foldlM (fun r entry => r.addFlight policy entry.1 entry.2) r

/-- Whether overrides leave a flight alone.  Flights are on, so they can only be turned off. -/
def keepsFlight (o : Overrides) (flight : String) : Bool := (o.apply flight Decision.flight).active

/-- What is told about overrides: names that neither a gate nor a flight has, and flights that are
turned off. -/
def overrideNotices (v : View) (o : Overrides) (r : Report) : List Notice :=
  let unknown := o.names.filter fun name =>
    (v.named? name).isNone && (r.flight? name).isNone
  let dropped := r.flights.names.filter (!keepsFlight o ·)
  unknown.map .unknownOverride ++ dropped.map .flightSwitchedOff

/-- Lays overrides over the decisions and the flights. -/
def amend (v : View) (o : Overrides) (r : Report) : Noted Report :=
  if o.isEmpty then pure r
  else
    { answer := ⟨r.gates.map o.amend, r.flights.filter fun flight _ => keepsFlight o flight⟩
      notices := overrideNotices v o r }

end Report
end FeatureGates
