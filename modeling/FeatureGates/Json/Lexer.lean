import FeatureGates.Json.Token
import FeatureGates.Text.Digits

/-!
Splitting a text into tokens.  The text is read once, character by character; what the lexer is
inside of is its mode.  Outside of strings everything that is neither white space nor punctuation
belongs to a word, and a word must be a number or one of three names.
-/

namespace FeatureGates
namespace Json

/-- A string literal that is being read. -/
structure Draft where
  /-- The characters so far, latest first. -/
  chars : List Char
  /-- The first half of a surrogate pair, while the second is due. -/
  half : Option Nat
  /-- No half of a pair was alone so far. -/
  whole : Bool

namespace Draft

def empty : Draft := ⟨[], none, true⟩

def add (d : Draft) (c : Char) : Draft := ⟨c :: d.chars, none, d.whole && d.half.isNone⟩

/-- Adds the code unit of a `\u` escape.  Two halves that follow each other make one character. -/
def addUnit (d : Draft) (unit : Nat) : Draft :=
  if 0xD800 ≤ unit ∧ unit < 0xDC00 then ⟨d.chars, some unit, d.whole && d.half.isNone⟩
  else if 0xDC00 ≤ unit ∧ unit < 0xE000 then
    match d.half with
    | some half => ⟨Char.ofNat (0x10000 + (half - 0xD800) * 0x400 + (unit - 0xDC00)) :: d.chars,
        none, d.whole⟩
    | none => ⟨d.chars, none, false⟩
  else d.add (Char.ofNat unit)

def content (d : Draft) : Option String :=
  if d.whole && d.half.isNone then some (String.ofList d.chars.reverse) else none

end Draft

inductive Mode where
  | between
  /-- Inside a word; its characters so far, latest first. -/
  | word (taken : List Char)
  | string (draft : Draft)
  /-- After a backslash. -/
  | escape (draft : Draft)
  /-- Inside the four digits of a `\u` escape, of which `due` are still to come. -/
  | unit (draft : Draft) (due : Nat) (value : Nat)
  | failed

structure Lexer where
  mode : Mode
  /-- The tokens so far, latest first. -/
  tokens : List Token

def isSpace (c : Char) : Bool := c = ' ' || c = '\t' || c = '\n' || c = '\r'

def punctuation? (c : Char) : Option Token :=
  if c = '[' then some .openArray
  else if c = ']' then some .closeArray
  else if c = '\x7b' then some .openObject
  else if c = '\x7d' then some .closeObject
  else if c = ':' then some .colon
  else if c = ',' then some .comma
  else none

def wordToken? (word : List Char) : Option Token :=
  if word = "null".toList then some .null
  else if word = "true".toList then some (.bool true)
  else if word = "false".toList then some (.bool false)
  else (Numeral.ofWord? word).map .number

/-- The character that a short escape stands for. -/
def shortEscape? (c : Char) : Option Char :=
  if c = '"' then some '"'
  else if c = '\\' then some '\\'
  else if c = '/' then some '/'
  else if c = 'b' then some '\x08'
  else if c = 'f' then some '\x0C'
  else if c = 'n' then some '\n'
  else if c = 'r' then some '\r'
  else if c = 't' then some '\t'
  else none

namespace Lexer

def start : Lexer := ⟨.between, []⟩

def fail (l : Lexer) : Lexer := ⟨.failed, l.tokens⟩

def emit (l : Lexer) (t : Token) : Lexer := ⟨.between, t :: l.tokens⟩

/-- A character outside of strings that no word reaches. -/
def between (l : Lexer) (c : Char) : Lexer :=
  if isSpace c then ⟨.between, l.tokens⟩
  else if c = '"' then ⟨.string .empty, l.tokens⟩
  else match punctuation? c with
    | some t => l.emit t
    | none => ⟨.word [c], l.tokens⟩

def endsWord (c : Char) : Bool := isSpace c || c = '"' || (punctuation? c).isSome

def closeWord (l : Lexer) (taken : List Char) : Lexer :=
  match wordToken? taken.reverse with
  | some t => l.emit t
  | none => l.fail

def step (l : Lexer) (c : Char) : Lexer :=
  match l.mode with
  | .between => l.between c
  | .word taken =>
    if endsWord c then
      let l := l.closeWord taken
      match l.mode with
      | .failed => l
      | _ => l.between c
    else ⟨.word (c :: taken), l.tokens⟩
  | .string draft =>
    if c = '"' then l.emit (.text draft.content)
    else if c = '\\' then ⟨.escape draft, l.tokens⟩
    else if c.toNat < 0x20 then l.fail
    else ⟨.string (draft.add c), l.tokens⟩
  | .escape draft =>
    if c = 'u' then ⟨.unit draft 4 0, l.tokens⟩
    else match shortEscape? c with
      | some e => ⟨.string (draft.add e), l.tokens⟩
      | none => l.fail
  | .unit draft due value =>
    match Text.digitValue? c with
    | none => l.fail
    | some d =>
      if due ≤ 1 then ⟨.string (draft.addUnit (value * 16 + d)), l.tokens⟩
      else ⟨.unit draft (due - 1) (value * 16 + d), l.tokens⟩
  | .failed => l

/-- Ends the last word. -/
def finish (l : Lexer) : Lexer :=
  match l.mode with
  | .word taken => l.closeWord taken
  | .between => l
  | _ => l.fail

end Lexer

/-- The tokens of a text before its first fault, and whether there was none. -/
structure Lexed where
  tokens : List Token
  sound : Bool

def lex (text : String) : Lexed :=
  let l := (text.toList.foldl Lexer.step Lexer.start).finish
  ⟨l.tokens.reverse, match l.mode with
    | .failed => false
    | _ => true⟩

end Json
end FeatureGates
