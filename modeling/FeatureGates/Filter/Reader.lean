import FeatureGates.Filter
import FeatureGates.Json.Reader
import FeatureGates.Json.Record

/-!
Filters in JSON.  A filter is a record whose first field `kind` says which other fields it has.
Unlike elsewhere, fields that were not declared are read in full, so what they hold can be a fault.
-/

namespace FeatureGates
namespace Filter

open Json (Record)

/-- A list of texts; a list of one may be written as that text. -/
def textOrTexts? : Json → Option (List String)
  | .text content => content.map ([·])
  | j => j.texts?

/-- One past the largest exposure that can be written. -/
def exposureBound : Nat := 4294967296

/-- The filter of a kind from the fields besides `kind`. -/
def ofSettings? (kind : String) (r : Record) : Option Filter :=
  if kind = "campaign" then do
    guard (r.fits 2)
    let enabled ← r.optional? 0 ["enabled"] [] Json.texts?
    let disabled ← r.optional? 1 ["disabled"] [] Json.texts?
    return condition (.campaign enabled disabled)
  else if kind = "environment" then do
    guard (r.fits 1)
    let environments ← r.optional? 0 ["environments"] [] textOrTexts?
    return condition (.environment environments)
  else if kind = "ipAddress" then do
    guard (r.fits 1)
    return condition (.ipAddress (← r.required? 0 ["allowedRange"] Json.text?))
  else if kind = "parent" then do
    guard (r.fits 1)
    return parent (← r.required? 0 ["gate", "parent"] Json.text?)
  else if kind = "rollout" then do
    guard (r.fits 1)
    let exposure ← r.required? 0 ["exposurePercentage"] (Json.natural? exposureBound)
    return condition (.rollout exposure)
  else none

def ofRecord? : Record → Option Filter
  | .named members => do
    let kind ← (Record.named members).required? 0 ["kind"] Json.text?
    ofSettings? kind (.named members)
  | .listed [] => none
  | .listed (kind :: settings) => do ofSettings? (← kind.text?) (.listed settings)

/-- Reads a filter where `room` more containers may be nested. -/
def ofJson? (room : Nat) (j : Json) : Option Filter :=
  if j.readable room then j.record?.bind ofRecord? else none

/-- Reads a JSON text that is one filter. -/
def parse? (text : String) : Option Filter :=
  (Json.parse? text).bind (ofJson? Json.nestingLimit)

end Filter
end FeatureGates
