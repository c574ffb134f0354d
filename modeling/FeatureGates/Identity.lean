import FeatureGates.Request

/-!
Identity: which identifier stands for the customer when rollouts are decided.
-/

namespace FeatureGates

/-- Where an identifier comes from: from the request in some way, or from the first of several
sources that has one. -/
inductive Identity where
  | source (find? : Request → Option String)
  | chain (sources : List Identity)

namespace Identity

def customer : Identity := .source Request.customer

def anonymous : Identity := .source Request.anonymous

/-- The customer's identifier if there is one, and else the anonymous one. -/
def customerOrAnonymous : Identity := .source fun r => r.customer.or r.anonymous

/-- The same answer for every request. -/
def constant (answer : Option String) : Identity := .source fun _ => answer

mutual
/-- The identifier for a request.  In a chain an empty identifier counts as none. -/
def resolve (r : Request) : Identity → Option String
  | source find? => find? r
  | chain sources => firstNonEmpty r sources

def firstNonEmpty (r : Request) : List Identity → Option String
  | [] => none
  | first :: rest =>
    match resolve r first with
    | some id => if id.isEmpty then firstNonEmpty r rest else some id
    | none => firstNonEmpty r rest
end

end Identity
end FeatureGates
