import FeatureGates.Network.Table
import FeatureGates.Rollout

/-!
Filters.  A filter restricts when a gate is on; a gate is on only if each of its filters passes.
Most filters are conditions, decided by the request alone; a parent filter asks for the decision
of another gate.
-/

namespace FeatureGates

inductive Filter.Kind where
  | campaign
  | environment
  | ipAddress
  | parent
  | rollout
  deriving DecidableEq

inductive Condition where
  | campaign (enabled disabled : List String)
  | environment (environments : List String)
  /-- The client's address must be in a network that a table lists under this name. -/
  | ipAddress (allowedRange : String)
  | rollout (exposurePercentage : Nat)
  deriving DecidableEq

inductive Filter where
  | condition (condition : Condition)
  /-- The gate of this name must be on. -/
  | parent (gate : String)
  deriving DecidableEq

def Condition.kind : Condition → Filter.Kind
  | campaign _ _ => .campaign
  | environment _ => .environment
  | ipAddress _ => .ipAddress
  | rollout _ => .rollout

def Filter.kind : Filter → Filter.Kind
  | condition c => c.kind
  | parent _ => .parent

/-- The exposure that a rollout filter asks for. -/
def Filter.exposure? : Filter → Option Nat
  | condition (.rollout exposure) => some exposure
  | _ => none

/-- All that a condition may look at.  Everything but the gate's name is the same for all gates
that are decided for one request. -/
structure Circumstances where
  gate : String
  campaigns : List String
  customer : Option String
  client : Option Address
  environment : Option String
  networks : NetworkLookup

namespace Condition

/-- A disabled campaign wins over an enabled one; with no campaign enabled all are. -/
def campaignHolds (enabled disabled campaigns : List String) : Bool :=
  !campaigns.any (Text.listsName disabled) &&
    (enabled.isEmpty || campaigns.any (Text.listsName enabled))

/-- An empty list places no restriction. -/
def environmentHolds (environments : List String) (environment : Option String) : Bool :=
  environments.isEmpty || environment.any (Text.listsName environments)

/-- Without an address of the client, or under an unknown name, no address is allowed. -/
def addressHolds (networks : Option (List Network)) (client : Option Address) : Bool :=
  match client, networks with
  | some address, some networks => networks.any (·.contains address)
  | _, _ => false

def holds (c : Circumstances) : Condition → Bool
  | campaign enabled disabled => campaignHolds enabled disabled c.campaigns
  | environment environments => environmentHolds environments c.environment
  | ipAddress allowedRange => addressHolds (c.networks allowedRange) c.client
  | rollout exposure => Rollout.reaches c.gate c.customer exposure

end Condition
end FeatureGates
