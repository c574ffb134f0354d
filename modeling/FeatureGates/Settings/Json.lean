import FeatureGates.Json.Printer
import FeatureGates.Json.Reader
import FeatureGates.Json.Record
import FeatureGates.Settings

/-!
Settings in JSON.  Settings are a record in which every field may be missing.
-/

namespace FeatureGates

namespace CollisionPolicy

def name : CollisionPolicy → String
  | reject => "reject"
  | lastWriterWins => "lastWriterWins"

def ofName? (name : String) : Option CollisionPolicy :=
  if name = "reject" then some reject
  else if name = "lastWriterWins" then some lastWriterWins
  else none

/-- A policy is written as its name, or as an object with the name as its only key and no value. -/
def ofJson? : Json → Option CollisionPolicy
  | .object [(key, .null)] => key.bind ofName?
  | j => j.text?.bind ofName?

end CollisionPolicy

namespace Settings

/-- One past the longest timeout that can be written. -/
def timeoutBound : Nat := 18446744073709551616

def ofJson? (j : Json) : Option Settings := do
  let r ← j.record?
  guard (r.fits 4)
  let standard : Settings := {}
  let defaultEnvironment ←
    r.optional? 0 ["defaultEnvironment"] standard.defaultEnvironment Json.nullOrText?
  let trustForwardedFor ←
    r.optional? 1 ["trustForwardedFor"] standard.trustForwardedFor Json.bool?
  let flightTimeout ←
    r.optional? 2 ["flightTimeoutMs"] standard.flightTimeout (Json.natural? timeoutBound)
  let collisionPolicy ←
    r.optional? 3 ["flightCollisionPolicy"] standard.collisionPolicy CollisionPolicy.ofJson?
  return { defaultEnvironment, trustForwardedFor, flightTimeout, collisionPolicy }

def parse? (text : String) : Option Settings := (Json.parse? text).bind ofJson?

def toJson (s : Settings) : Json :=
  .object
    [(some "defaultEnvironment", (s.defaultEnvironment.map Json.string).getD .null),
     (some "trustForwardedFor", .bool s.trustForwardedFor),
     (some "flightTimeoutMs", .nat s.flightTimeout),
     (some "flightCollisionPolicy", .string s.collisionPolicy.name)]

def render (s : Settings) : String := s.toJson.render

end Settings
end FeatureGates
