import FeatureGates.Address.Reader
import FeatureGates.Notice
import FeatureGates.Overrides

/-!
Requests: what the host knows about a request that decisions may depend on.  A request is built up
from header and query values as they were received.
-/

namespace FeatureGates

structure Request where
  customer : Option String := none
  /-- An identifier of the device, for requests without a customer. -/
  anonymous : Option String := none
  market : Option String := none
  environment : Option String := none
  campaigns : List String := []
  /-- The chain of forwarded addresses, the client's first. -/
  forwardedFor : List String := []
  /-- The other end of the connection. -/
  remote : Option Address := none
  partner : Option String := none
  platform : Option String := none
  overrides : Overrides := {}

/-- One thing that was received.  Parts may come in any order and more than once. -/
inductive RequestPart where
  | customer (value : String)
  | anonymous (value : String)
  | market (value : String)
  | environment (value : String)
  /-- A query value that lists campaigns. -/
  | campaigns (value : String)
  /-- A header value that lists forwarded addresses. -/
  | forwardedFor (value : String)
  | remote (address : Address)
  | partner (value : String)
  | platform (value : String)
  | overrides (overrides : Overrides)

namespace Request

/-- Takes in a part.  Lists grow, and all else is replaced; texts are trimmed, and a blank one
clears its field. -/
def add (r : Request) : RequestPart → Request
  | .customer value => { r with customer := Text.nonBlank? value }
  | .anonymous value => { r with anonymous := Text.nonBlank? value }
  | .market value => { r with market := Text.nonBlank? value }
  | .environment value => { r with environment := Text.nonBlank? value }
  | .campaigns value => { r with campaigns := Text.distinct (r.campaigns ++ Text.pieces value) }
  | .forwardedFor value => { r with forwardedFor := r.forwardedFor ++ Text.pieces value }
  | .remote address => { r with remote := some address }
  | .partner value => { r with partner := Text.nonBlank? value }
  | .platform value => { r with platform := Text.nonBlank? value }
  | .overrides overrides => { r with overrides }

def ofParts (parts : List RequestPart) : Request := parts.foldl add {}

/-- Takes all opening brackets off the front and all closing brackets off the end. -/
def unbracketed (cs : List Char) : List Char :=
  ((cs.dropWhile (· == '[')).reverse.dropWhile (· == ']')).reverse

/-- The address in a forwarded entry: an address, an endpoint, or an address in brackets. -/
def forwardedAddress? (entry : String) : Option Address :=
  let cs := Text.trimmed entry.toList
  (Address.ofChars? cs).or ((Address.ofEndpoint? cs).or (Address.ofChars? (unbracketed cs)))

/-- The first entry that holds an address; those before it are noticed. -/
def firstForwarded : List String → Noted (Option Address)
  | [] => pure none
  | entry :: rest =>
    match forwardedAddress? entry with
    | some address => pure (some address)
    | none => do
      note (.unreadableForwardedEntry entry)
      firstForwarded rest

/-- The address of the client: from the forwarded chain if that is trusted and holds an address,
and else the other end of the connection. -/
def client (r : Request) (trustForwarded : Bool) : Noted (Option Address) :=
  if trustForwarded then (firstForwarded r.forwardedFor).map (·.or r.remote) else pure r.remote

end Request
end FeatureGates
