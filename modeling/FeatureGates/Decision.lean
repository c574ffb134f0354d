import FeatureGates.Filter

/-!
Decisions: whether a gate is on, and why.
-/

namespace FeatureGates

inductive Overrides.Kind where
  | enabled
  | disabled
  | toggled
  deriving DecidableEq

/-- Why a gate could not be decided in the normal way. -/
inductive DecisionError where
  /-- There is no gate of this name. -/
  | gateNotFound
  /-- The gate was reached again while it was being decided. -/
  | cycleDetected
  deriving DecidableEq

inductive Reason where
  | filtersPassed
  /-- The filter at `index` is the first that did not pass. -/
  | filterFailed (index : Nat) (kind : Filter.Kind)
  /-- The gate around this one is off. -/
  | containerInactive (container : String)
  | overridden (kind : Overrides.Kind)
  /-- A flight of the same name turned the gate on. -/
  | flight
  | error (error : DecisionError)
  deriving DecidableEq

structure Decision where
  active : Bool
  reason : Reason
  deriving DecidableEq

namespace Decision

def passed : Decision := ⟨true, .filtersPassed⟩

def filterFailed (index : Nat) (kind : Filter.Kind) : Decision :=
  ⟨false, .filterFailed index kind⟩

def containerInactive (container : String) : Decision := ⟨false, .containerInactive container⟩

def overridden (active : Bool) (kind : Overrides.Kind) : Decision := ⟨active, .overridden kind⟩

def flight : Decision := ⟨true, .flight⟩

/-- Without a decision a gate is off. -/
def error (e : DecisionError) : Decision := ⟨false, .error e⟩

def isMissing (d : Decision) : Bool := d.reason = .error .gateNotFound

end Decision
end FeatureGates
