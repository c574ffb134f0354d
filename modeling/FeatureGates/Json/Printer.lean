import FeatureGates.Json.Token

/-!
Writing JSON without white space.
-/

namespace FeatureGates
namespace Json

mutual
/-- The tokens of a value, in front of those that follow it. -/
def tokensBefore (rest : List Token) : Json → List Token
  | .null => .null :: rest
  | .bool value => .bool value :: rest
  | .number numeral => .number numeral :: rest
  | .text content => .text content :: rest
  | .array [] => .openArray :: .closeArray :: rest
  | .array (item :: items) =>
    .openArray :: tokensBefore (itemsBefore (.closeArray :: rest) items) item
  | .object [] => .openObject :: .closeObject :: rest
  | .object ((key, value) :: members) =>
    .openObject :: .text key :: .colon ::
      tokensBefore (membersBefore (.closeObject :: rest) members) value

def itemsBefore (rest : List Token) : List Json → List Token
  | [] => rest
  | item :: items => .comma :: tokensBefore (itemsBefore rest items) item

def membersBefore (rest : List Token) : List (Option String × Json) → List Token
  | [] => rest
  | (key, value) :: members =>
    .comma :: .text key :: .colon :: tokensBefore (membersBefore rest members) value
end

def tokens (j : Json) : List Token := tokensBefore [] j

def render (j : Json) : String := String.ofList (j.tokens.flatMap Token.chars)

end Json
end FeatureGates
