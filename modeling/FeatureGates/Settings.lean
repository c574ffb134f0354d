import FeatureGates.Report

/-!
The settings of an evaluator.
-/

namespace FeatureGates

structure Settings where
  /-- Assumed for requests that name no environment. -/
  defaultEnvironment : Option String := none
  /-- Whether the client's address may be taken from the forwarded chain. -/
  trustForwardedFor : Bool := true
  /-- How long flights are waited for, in milliseconds. -/
  flightTimeout : Nat := 500
  collisionPolicy : CollisionPolicy := .reject
  deriving DecidableEq

end FeatureGates
