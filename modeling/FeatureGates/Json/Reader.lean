import FeatureGates.Json.Lexer

/-!
Reading a JSON value from its tokens.  The containers around the place that is being read stand on
a stack, so any depth of nesting is read.
-/

namespace FeatureGates
namespace Json

/-- A container that is not closed yet; what it holds so far is kept latest first. -/
inductive Frame where
  | array (items : List Json)
  | object (members : List (Option String × Json))
  /-- An object whose last key has no value yet. -/
  | member (members : List (Option String × Json)) (key : Option String)

/-- What may come next. -/
inductive Due where
  | value
  /-- The first item of an array, or its end. -/
  | itemOrEnd
  | key
  /-- The first key of an object, or its end. -/
  | keyOrEnd
  | colon
  /-- A comma, or the end of the container on top. -/
  | commaOrEnd
  /-- Nothing: the value is complete. -/
  | nothing (value : Json)

structure Reader where
  due : Due
  stack : List Frame

namespace Reader

def start : Reader := ⟨.value, []⟩

/-- Puts a finished value where it belongs. -/
def deliver (value : Json) : List Frame → Option Reader
  | [] => some ⟨.nothing value, []⟩
  | .array items :: stack => some ⟨.commaOrEnd, .array (value :: items) :: stack⟩
  | .member members key :: stack => some ⟨.commaOrEnd, .object ((key, value) :: members) :: stack⟩
  | .object _ :: _ => none

/-- Closes the container on top, if the token is its end. -/
def close : Token → List Frame → Option Reader
  | .closeArray, .array items :: stack => deliver (.array items.reverse) stack
  | .closeObject, .object members :: stack => deliver (.object members.reverse) stack
  | _, _ => none

def value (t : Token) (stack : List Frame) : Option Reader :=
  match t with
  | .null => deliver .null stack
  | .bool b => deliver (.bool b) stack
  | .number n => deliver (.number n) stack
  | .text content => deliver (.text content) stack
  | .openArray => some ⟨.itemOrEnd, .array [] :: stack⟩
  | .openObject => some ⟨.keyOrEnd, .object [] :: stack⟩
  | _ => none

def key (t : Token) (stack : List Frame) : Option Reader :=
  match t, stack with
  | .text content, .object members :: stack => some ⟨.colon, .member members content :: stack⟩
  | _, _ => none

def step (r : Reader) (t : Token) : Option Reader :=
  match r.due with
  | .value => value t r.stack
  | .itemOrEnd => (close t r.stack).or (value t r.stack)
  | .key => key t r.stack
  | .keyOrEnd => (close t r.stack).or (key t r.stack)
  | .colon => match t with
    | .colon => some ⟨.value, r.stack⟩
    | _ => none
  | .commaOrEnd => match t, r.stack with
    | .comma, .array _ :: _ => some ⟨.value, r.stack⟩
    | .comma, .object _ :: _ => some ⟨.key, r.stack⟩
    | t, stack => close t stack
  | .nothing _ => none

def result? (r : Reader) : Option Json :=
  match r.due with
  | .nothing value => some value
  | _ => none

end Reader

def ofTokens? (tokens : List Token) : Option Json :=
  (tokens.foldlM Reader.step Reader.start).bind Reader.result?

/-- The value of a JSON text; nothing may stand before or after it except white space. -/
def parse? (text : String) : Option Json :=
  let lexed := lex text
  if lexed.sound then ofTokens? lexed.tokens else none

end Json
end FeatureGates
