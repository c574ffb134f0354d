import FeatureGates.Json.Printer
import FeatureGates.Json.Reader
import FeatureGates.Proofs.Spelling
import Mathlib.Tactic.SplitIfs

/-!
Reading a value back.

The tokens of a value make up that value again, however deep it is nested, and they never put two
words side by side.  So every spelling of a value is read as that value.
-/

namespace FeatureGates
namespace Json

/-! ## From tokens to values -/

namespace Reader

variable {stack : List Frame}

theorem foldlM_step_cons (r : Reader) (t : Token) (rest : List Token) :
    (t :: rest).foldlM step r = (step r t).bind fun r => rest.foldlM step r := rfl

theorem step_closeArray (due : Due) (hdue : due = .itemOrEnd ∨ due = .commaOrEnd)
    (items : List Json) : step ⟨due, .array items :: stack⟩ .closeArray =
      deliver (.array items.reverse) stack := by
  rcases hdue with rfl | rfl
  · exact Option.or_none
  · rfl

theorem step_closeObject (due : Due) (hdue : due = .keyOrEnd ∨ due = .commaOrEnd)
    (members : List (Option String × Json)) : step ⟨due, .object members :: stack⟩ .closeObject =
      deliver (.object members.reverse) stack := by
  rcases hdue with rfl | rfl
  · exact Option.or_none
  · rfl

/-- The first item of an array starts in the way any value starts. -/
theorem foldlM_step_itemOrEnd (j : Json) (rest : List Token) :
    (tokensBefore rest j).foldlM step ⟨.itemOrEnd, stack⟩ =
      (tokensBefore rest j).foldlM step ⟨.value, stack⟩ := by
  have hclose : ∀ t : Token, t ≠ .closeArray → t ≠ .closeObject → close t stack = none := by
    intro t harray hobject
    cases t <;> first | rfl | contradiction
  have hstep : ∀ (t : Token) (rest' : List Token), t ≠ .closeArray → t ≠ .closeObject →
      (t :: rest').foldlM step ⟨.itemOrEnd, stack⟩ = (t :: rest').foldlM step ⟨.value, stack⟩ := by
    intro t rest' harray hobject
    rw [foldlM_step_cons, foldlM_step_cons]
    show ((close t stack).or (value t stack)).bind _ = _
    rw [hclose t harray hobject, Option.none_or]
    rfl
  match j with
  | .null | .bool _ | .number _ | .text _ | .array [] | .array (_ :: _) | .object []
  | .object (_ :: _) => exact hstep _ _ nofun nofun

mutual
/-- The tokens of a value deliver it. -/
theorem foldlM_step_tokensBefore (stack : List Frame) (rest : List Token) :
    (j : Json) → (tokensBefore rest j).foldlM step ⟨.value, stack⟩ =
      (deliver j stack).bind fun r => rest.foldlM step r
  | .null => rfl
  | .bool _ => rfl
  | .number _ => rfl
  | .text _ => rfl
  | .array [] => by
    show (step ⟨.itemOrEnd, .array [] :: stack⟩ .closeArray).bind _ = _
    rw [step_closeArray _ (.inl rfl)]
    rfl
  | .array (item :: items) => by
    show (tokensBefore _ item).foldlM step ⟨.itemOrEnd, .array [] :: stack⟩ = _
    rw [foldlM_step_itemOrEnd, foldlM_step_tokensBefore _ _ item]
    show (itemsBefore _ items).foldlM step ⟨.commaOrEnd, .array [item] :: stack⟩ = _
    rw [foldlM_step_itemsBefore _ _ _ items, foldlM_step_cons, step_closeArray _ (.inr rfl)]
    simp
  | .object [] => by
    show (step ⟨.keyOrEnd, .object [] :: stack⟩ .closeObject).bind _ = _
    rw [step_closeObject _ (.inl rfl)]
    rfl
  | .object ((key, value) :: members) => by
    show (tokensBefore _ value).foldlM step ⟨.value, .member [] key :: stack⟩ = _
    rw [foldlM_step_tokensBefore _ _ value]
    show (membersBefore _ members).foldlM step ⟨.commaOrEnd, .object [(key, value)] :: stack⟩ = _
    rw [foldlM_step_membersBefore _ _ _ members, foldlM_step_cons, step_closeObject _ (.inr rfl)]
    simp

theorem foldlM_step_itemsBefore (stack : List Frame) (rest : List Token) (before : List Json) :
    (items : List Json) →
      (itemsBefore rest items).foldlM step ⟨.commaOrEnd, .array before :: stack⟩ =
        rest.foldlM step ⟨.commaOrEnd, .array (items.reverse ++ before) :: stack⟩
  | [] => rfl
  | item :: items => by
    show (tokensBefore _ item).foldlM step ⟨.value, .array before :: stack⟩ = _
    rw [foldlM_step_tokensBefore _ _ item]
    show (itemsBefore _ items).foldlM step ⟨.commaOrEnd, .array (item :: before) :: stack⟩ = _
    rw [foldlM_step_itemsBefore _ _ _ items]
    simp

theorem foldlM_step_membersBefore (stack : List Frame) (rest : List Token)
    (before : List (Option String × Json)) :
    (members : List (Option String × Json)) →
      (membersBefore rest members).foldlM step ⟨.commaOrEnd, .object before :: stack⟩ =
        rest.foldlM step ⟨.commaOrEnd, .object (members.reverse ++ before) :: stack⟩
  | [] => rfl
  | (key, value) :: members => by
    show (tokensBefore _ value).foldlM step ⟨.value, .member before key :: stack⟩ = _
    rw [foldlM_step_tokensBefore _ _ value]
    show (membersBefore _ members).foldlM step
      ⟨.commaOrEnd, .object ((key, value) :: before) :: stack⟩ = _
    rw [foldlM_step_membersBefore _ _ _ members]
    simp
end

end Reader

theorem ofTokens?_tokens (j : Json) : ofTokens? j.tokens = some j := by
  rw [ofTokens?, tokens, Reader.start, Reader.foldlM_step_tokensBefore]
  rfl

/-! ## Words stay apart -/

/-- Tokens that could follow a word, and in which words stay apart. -/
structure AfterWord (toks : List Token) : Prop where
  apart : toks.IsChain Token.Apart
  head : ∀ t ∈ toks.head?, t.isWord = false

theorem AfterWord.nil : AfterWord [] := ⟨.nil, nofun⟩

theorem AfterWord.cons {t : Token} {rest : List Token} (ht : t.isWord = false)
    (hrest : rest.IsChain Token.Apart) : AfterWord (t :: rest) where
  apart := by
    refine List.isChain_cons.mpr ⟨fun t' _ => Or.inl ht, hrest⟩
  head t' ht' := by
    obtain rfl := Option.some.inj ht'
    exact ht

theorem AfterWord.isChain_cons {rest : List Token} (hrest : AfterWord rest) (t : Token) :
    (t :: rest).IsChain Token.Apart :=
  List.isChain_cons.mpr ⟨fun t' ht' => Or.inr (hrest.head t' ht'), hrest.apart⟩

mutual
theorem isChain_tokensBefore {rest : List Token} (hrest : AfterWord rest) :
    (j : Json) → (tokensBefore rest j).IsChain Token.Apart
  | .null | .bool _ | .number _ | .text _ => hrest.isChain_cons _
  | .array [] => by
    have hclose : AfterWord (.closeArray :: rest) := .cons rfl hrest.apart
    exact hclose.isChain_cons _
  | .array (item :: items) => by
    have hclose : AfterWord (.closeArray :: rest) := .cons rfl hrest.apart
    have hitem := isChain_tokensBefore (afterWord_itemsBefore hclose items) item
    exact (AfterWord.cons rfl hitem).apart
  | .object [] => by
    have hclose : AfterWord (.closeObject :: rest) := .cons rfl hrest.apart
    exact hclose.isChain_cons _
  | .object ((key, value) :: members) => by
    have hclose : AfterWord (.closeObject :: rest) := .cons rfl hrest.apart
    have hvalue := isChain_tokensBefore (afterWord_membersBefore hclose members) value
    have hkey : AfterWord (.text key :: .colon :: _) := .cons rfl (AfterWord.cons rfl hvalue).apart
    exact hkey.isChain_cons _

theorem afterWord_itemsBefore {rest : List Token} (hrest : AfterWord rest) :
    (items : List Json) → AfterWord (itemsBefore rest items)
  | [] => hrest
  | item :: items =>
    .cons rfl (isChain_tokensBefore (afterWord_itemsBefore hrest items) item)

theorem afterWord_membersBefore {rest : List Token} (hrest : AfterWord rest) :
    (members : List (Option String × Json)) → AfterWord (membersBefore rest members)
  | [] => hrest
  | (key, value) :: members => by
    have hvalue := isChain_tokensBefore (afterWord_membersBefore hrest members) value
    have hkey : AfterWord (.text key :: .colon :: _) := .cons rfl (AfterWord.cons rfl hvalue).apart
    exact .cons rfl hkey.apart
end

theorem isChain_tokens (j : Json) : j.tokens.IsChain Token.Apart :=
  isChain_tokensBefore .nil j

/-! ## From texts to values -/

/-- The text writes the value, in some spelling. -/
def WrittenAs (j : Json) (text : String) : Prop := Spelling j.tokens text.toList

theorem parse?_of_writtenAs {j : Json} {text : String} (h : j.WrittenAs text) :
    parse? text = some j := by
  rw [parse?, lex_of_spelling h j.isChain_tokens]
  exact j.ofTokens?_tokens

/-! ## What the printer writes -/

mutual
/-- All strings of the value are texts, and all its numbers natural. -/
def Plain : Json → Prop
  | .null | .bool _ => True
  | .number numeral => ∃ n, numeral = Numeral.ofNat n
  | .text content => content.isSome = true
  | .array items => ItemsPlain items
  | .object members => MembersPlain members

def ItemsPlain : List Json → Prop
  | [] => True
  | item :: rest => item.Plain ∧ ItemsPlain rest

def MembersPlain : List (Option String × Json) → Prop
  | [] => True
  | (key, value) :: rest => key.isSome = true ∧ value.Plain ∧ MembersPlain rest
end

/-- The tokens of plain values. -/
def Token.Plain : Token → Prop
  | .number numeral => ∃ n, numeral = Numeral.ofNat n
  | .text content => content.isSome = true
  | _ => True

def PlainTokens (toks : List Token) : Prop := ∀ t ∈ toks, t.Plain

theorem PlainTokens.cons {t : Token} {rest : List Token} (ht : t.Plain) (hrest : PlainTokens rest) :
    PlainTokens (t :: rest) := List.forall_mem_cons.mpr ⟨ht, hrest⟩

mutual
theorem plainTokens_tokensBefore {rest : List Token} (hrest : PlainTokens rest) :
    (j : Json) → j.Plain → PlainTokens (tokensBefore rest j)
  | .null, _ | .bool _, _ => hrest.cons trivial
  | .number _, h | .text _, h => hrest.cons h
  | .array [], _ => (hrest.cons (t := .closeArray) trivial).cons trivial
  | .object [], _ => (hrest.cons (t := .closeObject) trivial).cons trivial
  | .array (item :: items), ⟨hitem, hitems⟩ => by
    have hrestItems := plainTokens_itemsBefore (hrest.cons (t := .closeArray) trivial) items hitems
    exact (plainTokens_tokensBefore hrestItems item hitem).cons trivial
  | .object ((key, value) :: members), ⟨hkey, hvalue, hmembers⟩ => by
    have hrestMembers := plainTokens_membersBefore (hrest.cons (t := .closeObject) trivial) members
      hmembers
    have hfirst := plainTokens_tokensBefore hrestMembers value hvalue
    exact ((hfirst.cons (t := .colon) trivial).cons (t := .text key) hkey).cons trivial

theorem plainTokens_itemsBefore {rest : List Token} (hrest : PlainTokens rest) :
    (items : List Json) → ItemsPlain items → PlainTokens (itemsBefore rest items)
  | [], _ => hrest
  | item :: items, ⟨hitem, hitems⟩ => by
    have hrestItems := plainTokens_itemsBefore hrest items hitems
    exact (plainTokens_tokensBefore hrestItems item hitem).cons trivial

theorem plainTokens_membersBefore {rest : List Token} (hrest : PlainTokens rest) :
    (members : List (Option String × Json)) → MembersPlain members →
      PlainTokens (membersBefore rest members)
  | [], _ => hrest
  | (key, value) :: members, ⟨hkey, hvalue, hmembers⟩ => by
    have hrestMembers := plainTokens_membersBefore hrest members hmembers
    have hfirst := plainTokens_tokensBefore hrestMembers value hvalue
    exact ((hfirst.cons (t := .colon) trivial).cons (t := .text key) hkey).cons trivial
end

/-- The way the printer writes a character is a spelling of it. -/
theorem charSpelling_escaped (c : Char) : CharSpelling c (escaped c) := by
  have hdigit : ∀ d, d < 16 → Text.digitValue? (hexDigit d) = some d := by decide
  rw [escaped]
  split_ifs with hquote hbackslash hb hf hn hr ht hcontrol
  · subst hquote
    exact .short (by decide)
  · subst hbackslash
    exact .short (by decide)
  · subst hb
    exact .short (by decide)
  · subst hf
    exact .short (by decide)
  · subst hn
    exact .short (by decide)
  · subst hr
    exact .short (by decide)
  · subst ht
    exact .short (by decide)
  · have hdigits := FourDigits.mk (hdigit 0 (by decide)) (hdigit 0 (by decide))
      (hdigit (c.toNat / 16) (by omega)) (hdigit (c.toNat % 16) (by omega))
    have hvalue : ((0 * 16 + 0) * 16 + c.toNat / 16) * 16 + c.toNat % 16 = c.toNat := by omega
    rw [hvalue] at hdigits
    exact .unit hdigits
  · exact .plain hquote hbackslash (Nat.le_of_not_lt hcontrol)

theorem textSpelling_flatMap_escaped (cs : List Char) : TextSpelling cs (cs.flatMap escaped) := by
  induction cs with
  | nil => exact .nil
  | cons c rest ih => exact .cons (charSpelling_escaped c) ih

theorem Token.Plain.spelling {t : Token} (h : t.Plain) : TokenSpelling t t.chars := by
  match t with
  | .openArray | .closeArray | .openObject | .closeObject | .colon | .comma =>
    exact .punctuation (by decide)
  | .null | .bool true | .bool false => exact .name (by decide)
  | .number _ =>
    obtain ⟨n, rfl⟩ := h
    have hchars : (Numeral.ofNat n).chars = Nat.toDigits 10 n := by
      simp [Numeral.chars, Numeral.ofNat]
    rw [Token.chars, hchars]
    exact .nat n
  | .text content =>
    obtain ⟨s, rfl⟩ := Option.isSome_iff_exists.mp h
    exact .text (textSpelling_flatMap_escaped s.toList)

theorem PlainTokens.spelling {toks : List Token} (h : PlainTokens toks) :
    Spelling toks (toks.flatMap Token.chars) := by
  induction toks with
  | nil => exact .nil rfl
  | cons t rest ih =>
    obtain ⟨ht, hrest⟩ := List.forall_mem_cons.mp h
    exact .cons (List.all_nil : [].all isSpace = true) ht.spelling (ih hrest)

/-- The printer writes a plain value. -/
theorem Plain.writtenAs_render {j : Json} (h : j.Plain) : j.WrittenAs j.render := by
  have htoks : PlainTokens j.tokens := plainTokens_tokensBefore (List.forall_mem_nil _) j h
  rw [WrittenAs, render, String.toList_ofList]
  exact htoks.spelling

end Json
end FeatureGates
