import FeatureGates.Json.Lexer
import FeatureGates.Network.Reader
import FeatureGates.Network.Table

/-!
Networks in JSON.  A network is a string; a table of networks is an object of lists of such
strings.  Tables are read token by token, because a string that is no network is reported with its
reason if nothing before it was wrong, even where the text is broken further on.
-/

namespace FeatureGates

inductive NetworkTextFault where
  /-- No JSON, or JSON of another shape. -/
  | malformed
  /-- A string that is no network. -/
  | network (error : NetworkError)

namespace NetworkTextFault

def message? : NetworkTextFault → Option String
  | malformed => none
  | network error => some error.message

end NetworkTextFault

namespace Network

/-- A network is written as its text. -/
def toJson (n : Network) : Json := Json.string n.toText

/-- The network that a string token names. -/
def ofToken : Json.Token → Except NetworkTextFault Network
  | .text (some s) => (parse s).mapError .network
  | _ => .error .malformed

/-- Reads a text that is one JSON string. -/
def parseJson (text : String) : Except NetworkTextFault Network :=
  let lexed := Json.lex text
  match lexed.tokens with
  | [] => .error .malformed
  | token :: rest => do
    let network ← ofToken token
    if rest.isEmpty && lexed.sound then return network else throw .malformed

end Network

namespace NetworkTable

/-- What may come next in the text of a table. -/
inductive Due where
  | table
  | keyOrEnd
  | key
  | colon (name : String)
  | list (name : String)
  | networkOrEnd (name : String)
  | network (name : String) (networks : List Network)
  | commaOrEndOfList (name : String) (networks : List Network)
  | commaOrEnd
  | nothing

structure Reader where
  due : Due
  /-- The finished lists, latest first. -/
  entries : List (String × List Network)

namespace Reader

def start : Reader := ⟨.table, []⟩

/-- A list replaces an earlier one under the very same name. -/
def addList (r : Reader) (name : String) (networks : List Network) : Reader :=
  ⟨.commaOrEnd, (name, networks) :: r.entries.filter fun entry => entry.1 ≠ name⟩

def addNetwork (r : Reader) (name : String) (networks : List Network) (t : Json.Token) :
    Except NetworkTextFault Reader := do
  let network ← Network.ofToken t
  return { r with due := .commaOrEndOfList name (networks ++ [network]) }

def step (r : Reader) (t : Json.Token) : Except NetworkTextFault Reader :=
  match r.due, t with
  | .table, .openObject => .ok { r with due := .keyOrEnd }
  | .keyOrEnd, .closeObject => .ok { r with due := .nothing }
  | .keyOrEnd, .text (some name) => .ok { r with due := .colon name }
  | .key, .text (some name) => .ok { r with due := .colon name }
  | .colon name, .colon => .ok { r with due := .list name }
  | .list name, .openArray => .ok { r with due := .networkOrEnd name }
  | .networkOrEnd name, .closeArray => .ok (r.addList name [])
  | .networkOrEnd name, t => r.addNetwork name [] t
  | .network name networks, t => r.addNetwork name networks t
  | .commaOrEndOfList name networks, .comma => .ok { r with due := .network name networks }
  | .commaOrEndOfList name networks, .closeArray => .ok (r.addList name networks)
  | .commaOrEnd, .comma => .ok { r with due := .key }
  | .commaOrEnd, .closeObject => .ok { r with due := .nothing }
  | _, _ => .error .malformed

end Reader

/-- Reads the JSON text of a table. -/
def parse (text : String) : Except NetworkTextFault NetworkTable := do
  let lexed := Json.lex text
  let r ← lexed.tokens.foldlM Reader.step Reader.start
  match r.due, lexed.sound with
  | .nothing, true => return ofEntries r.entries.reverse
  | _, _ => throw .malformed

end NetworkTable
end FeatureGates
