import FeatureGates.Report
import FeatureGates.Request

/-!
Flights: experiments that a service assigns to a request.  Asking the service is bounded by a
timeout and by a cancellation, whichever comes first; without an answer there are simply no
flights.  All times are milliseconds since the service was asked.
-/

namespace FeatureGates

/-- What a service assigns flights by. -/
structure FlightProfile where
  market : Option String
  environment : Option String
  partner : Option String
  platform : Option String
  customer : Option String
  deriving DecidableEq

/-- The profile of a request.  The customer comes from an identity, which need not take it from the
request. -/
def FlightProfile.ofRequest (r : Request) (customer defaultEnvironment : Option String) :
    FlightProfile :=
  { market := r.market, environment := r.environment.or defaultEnvironment, partner := r.partner,
    platform := r.platform, customer }

structure FlightService where
  /-- When the answer is ready, if ever. -/
  ready : Option Nat
  answer : FlightProfile → Except FlightFault Flights

namespace FlightService

/-- Assigns nothing, and at once. -/
def idle : FlightService := ⟨some 0, fun _ => .ok .empty⟩

/-- Of two outcomes the one that comes first, and of two at one time the left one.  The left one
may never come. -/
def sooner {α : Type} (time : Option Nat) (outcome : α) (other : Nat × α) : Nat × α :=
  match time with
  | some t => if t ≤ other.1 then (t, outcome) else other
  | none => other

/-- Time and outcome of asking the service.  At one time a cancellation goes before an answer, and
an answer before the timeout. -/
def race (s : FlightService) (profile : FlightProfile) (timeout : Nat) (cancelled : Option Nat) :
    Nat × Except FlightFault Flights :=
  let answered := sooner s.ready (s.answer profile) (timeout, .error .timeout)
  sooner cancelled (.error .cancelled) answered

/-- The flights for a profile.  A failure is noticed and leaves no flights. -/
def fetch (s : FlightService) (profile : FlightProfile) (timeout : Nat) (cancelled : Option Nat) :
    Noted Flights :=
  match (s.race profile timeout cancelled).2 with
  | .ok flights => pure flights
  | .error fault => do
    note (.flightsUnavailable fault)
    return .empty

end FlightService
end FeatureGates
