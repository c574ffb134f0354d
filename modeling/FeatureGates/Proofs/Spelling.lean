import FeatureGates.Json.Lexer
import Mathlib.Data.List.Chain
import Mathlib.Data.List.TakeWhile

/-!
The spellings of a text's tokens.

JSON leaves some choices to who writes it: most characters of a string can be spelled in several
ways, and between two tokens there may be white space.  The lexer finds the same tokens under all of
them, as long as no two words stand side by side.
-/

namespace FeatureGates

/-! ## Numerals of natural numbers -/

namespace Numeral

theorem isDigit_of_mem_toDigits {n : Nat} {c : Char} (hc : c ∈ Nat.toDigits 10 n) :
    c.isDigit = true :=
  Nat.isDigit_of_mem_toDigits (by decide) (by decide) hc

theorem head?_toDigits {n : Nat} (hn : n ≠ 0) : (Nat.toDigits 10 n).head? ≠ some '0' := by
  induction n using Nat.strongRecOn with
  | ind n ih =>
    rw [Nat.toDigits_eq_if (by decide)]
    split
    case isTrue hlt =>
      have hdigits : ∀ d, d < 10 → d ≠ 0 → d.digitChar ≠ '0' := by decide
      simpa using hdigits n hlt hn
    case isFalse hge =>
      have hsome : (Nat.toDigits 10 (n / 10)).head?.isSome = true := by
        simp [List.isSome_head?, Nat.toDigits_ne_nil]
      rw [List.head?_append, Option.or_of_isSome hsome]
      exact ih (n / 10) (by omega) (by omega)

theorem whole?_toDigits (n : Nat) : whole? (Nat.toDigits 10 n) = some (Nat.toDigits 10 n, []) := by
  have htake : (Nat.toDigits 10 n).takeWhile Char.isDigit = Nat.toDigits 10 n :=
    List.takeWhile_eq_self_iff.mpr fun c hc => isDigit_of_mem_toDigits hc
  have hdrop : (Nat.toDigits 10 n).dropWhile Char.isDigit = [] :=
    List.dropWhile_eq_nil_iff.mpr fun c hc => isDigit_of_mem_toDigits hc
  have hdigits : digits? (Nat.toDigits 10 n) = some (Nat.toDigits 10 n, []) := by
    rw [digits?, htake, hdrop]
    split
    case h_1 hnil => exact absurd hnil Nat.toDigits_ne_nil
    case h_2 => rfl
  rw [whole?, hdigits, Option.filter_some, if_pos]
  by_cases hn : n = 0
  · subst hn
    rfl
  · simp [head?_toDigits hn]

theorem ofWord?_toDigits (n : Nat) : ofWord? (Nat.toDigits 10 n) = some (ofNat n) := by
  have hunsigned : unsigned? false (Nat.toDigits 10 n) = some (ofNat n) := by
    simp [unsigned?, whole?_toDigits, fraction?, exponent?, ofNat]
  have hminus : ∀ rest, Nat.toDigits 10 n ≠ '-' :: rest := by
    intro rest h
    have hdigit : '-'.isDigit = true := isDigit_of_mem_toDigits (n := n) (h ▸ List.mem_cons_self)
    exact absurd hdigit (by decide)
  rw [ofWord?.eq_def]
  split
  case h_1 rest h => exact absurd h (hminus rest)
  case h_2 => exact hunsigned

theorem natural?_ofNat (n : Nat) : (ofNat n).natural? = some n :=
  congrArg some Nat.ofDigitChars_ten_toDigits

theorem appendDigits_eq (ds : List Char) (n : Nat) (h : Nat.ofDigitChars 10 ds n < UInt64.size) :
    appendDigits n ds = (Nat.ofDigitChars 10 ds n, ds.length) := by
  induction ds generalizing n with
  | nil => rfl
  | cons c rest ih =>
    have hcons : Nat.ofDigitChars 10 (c :: rest) n =
        Nat.ofDigitChars 10 rest (n * 10 + digitValue c) := by
      rw [Nat.ofDigitChars_cons, Nat.mul_comm]
      rfl
    rw [hcons] at h ⊢
    have hle : n * 10 + digitValue c ≤ Nat.ofDigitChars 10 rest (n * 10 + digitValue c) := by
      rw [Nat.ofDigitChars_eq_ofDigitChars_zero]
      have := Nat.one_le_pow rest.length 10 (by decide)
      exact (Nat.le_mul_of_pos_left _ this).trans (Nat.le_add_right _ _)
    have hfits : n * 10 + digitValue c < 18446744073709551616 := lt_of_le_of_lt hle h
    rw [appendDigits, if_pos hfits, ih _ h]
    rfl

theorem leading_ofNat {n : Nat} (h : n < UInt64.size) : (ofNat n).leading = (n, 0) := by
  have hwhole := appendDigits_eq (Nat.toDigits 10 n) 0
    (by rwa [Nat.ofDigitChars_ten_toDigits])
  rw [Nat.ofDigitChars_ten_toDigits] at hwhole
  simp [leading, ofNat, hwhole, appendDigits]

/-- Up to 53 bits nothing is rounded. -/
theorem round53_eq {n : Nat} (h : n < 9007199254740992) : round53 n = n := by
  have hextra : n.log2 + 1 - 53 = 0 := by
    rcases Nat.eq_zero_or_pos n with rfl | hpos
    · decide
    · have hlog := (Nat.log2_lt (k := 53) hpos.ne').mpr h
      omega
  rw [round53, hextra]
  simp [Nat.mod_one]

theorem exceedsDouble_ofNat {n : Nat} (h : n < 9007199254740992) : (ofNat n).exceedsDouble = false := by
  have hone : Nat.pow 10 (Int.toNat 0) = 1 := rfl
  have hfits : decide (1 <<< 1024 ≤ n) = false :=
    decide_eq_false (Nat.not_le.mpr (h.trans (by decide)))
  rw [exceedsDouble, leading_ofNat (h.trans (by decide))]
  simp only [hone, round53_eq h, round53_eq (n := 1) (by decide), Nat.mul_one, hfits]
  simp

end Numeral

namespace Json

/-! ## Spellings -/

/-- The short escapes, each by its letter and what it stands for. -/
def shortEscapes : List (Char × Char) :=
  [('"', '"'), ('\\', '\\'), ('/', '/'), ('b', '\x08'), ('f', '\x0C'), ('n', '\n'), ('r', '\r'),
    ('t', '\t')]

def punctuation : List (Char × Token) :=
  [('[', .openArray), (']', .closeArray), ('\x7b', .openObject), ('\x7d', .closeObject),
    (':', .colon), (',', .comma)]

def names : List (List Char × Token) :=
  [("null".toList, .null), ("true".toList, .bool true), ("false".toList, .bool false)]

/-- A number by its four hexadecimal digits. -/
inductive FourDigits : Nat → List Char → Prop
  | mk {c₃ c₂ c₁ c₀ : Char} {d₃ d₂ d₁ d₀ : Nat} (h₃ : Text.digitValue? c₃ = some d₃)
    (h₂ : Text.digitValue? c₂ = some d₂) (h₁ : Text.digitValue? c₁ = some d₁)
    (h₀ : Text.digitValue? c₀ = some d₀) :
    FourDigits (((d₃ * 16 + d₂) * 16 + d₁) * 16 + d₀) [c₃, c₂, c₁, c₀]

/-- How a character may be spelled inside a string literal. -/
inductive CharSpelling (c : Char) : List Char → Prop
  | plain (hquote : c ≠ '"') (hbackslash : c ≠ '\\') (hcontrol : 0x20 ≤ c.toNat) : CharSpelling c [c]
  | short {letter : Char} (h : (letter, c) ∈ shortEscapes) : CharSpelling c ['\\', letter]
  | unit {cs : List Char} (h : FourDigits c.toNat cs) : CharSpelling c ('\\' :: 'u' :: cs)
  /-- A character beyond 16 bits, as a surrogate pair. -/
  | pair {high low : List Char} (hlarge : 0x10000 ≤ c.toNat)
    (hhigh : FourDigits (0xD800 + (c.toNat - 0x10000) / 0x400) high)
    (hlow : FourDigits (0xDC00 + (c.toNat - 0x10000) % 0x400) low) :
    CharSpelling c ('\\' :: 'u' :: high ++ '\\' :: 'u' :: low)

/-- The spellings of characters one after another. -/
inductive TextSpelling : List Char → List Char → Prop
  | nil : TextSpelling [] []
  | cons {c : Char} {rest spelled restSpelled : List Char} (hc : CharSpelling c spelled)
    (hrest : TextSpelling rest restSpelled) :
    TextSpelling (c :: rest) (spelled ++ restSpelled)

/-- The spellings of a token.  Of the numbers only the natural ones are considered, in the one way
they can be written without point and exponent. -/
inductive TokenSpelling : Token → List Char → Prop
  | punctuation {c : Char} {t : Token} (h : (c, t) ∈ punctuation) : TokenSpelling t [c]
  | name {word : List Char} {t : Token} (h : (word, t) ∈ names) : TokenSpelling t word
  | nat (n : Nat) : TokenSpelling (.number (Numeral.ofNat n)) (Nat.toDigits 10 n)
  | text {s : String} {spelled : List Char} (h : TextSpelling s.toList spelled) :
    TokenSpelling (.text (some s)) ('"' :: spelled ++ ['"'])

/-- The spellings of tokens with white space before, between and after them. -/
inductive Spelling : List Token → List Char → Prop
  | nil {blank : List Char} (hblank : blank.all isSpace = true) : Spelling [] blank
  | cons {t : Token} {rest : List Token} {blank spelled restSpelled : List Char}
    (hblank : blank.all isSpace = true) (ht : TokenSpelling t spelled)
    (hrest : Spelling rest restSpelled) :
    Spelling (t :: rest) (blank ++ spelled ++ restSpelled)

/-- The tokens that are words. -/
def Token.isWord : Token → Bool
  | null | bool _ | number _ => true
  | _ => false

/-- Two tokens that stay apart without white space between them. -/
def Token.Apart (t t' : Token) : Prop := t.isWord = false ∨ t'.isWord = false

/-! ## Inside a string literal -/

namespace Lexer

variable {toks : List Token}

theorem step_plain {c : Char} (hquote : c ≠ '"') (hbackslash : c ≠ '\\') (hcontrol : 0x20 ≤ c.toNat)
    (draft : Draft) : step ⟨.string draft, toks⟩ c = ⟨.string (draft.add c), toks⟩ := by
  show (if c = '"' then _ else if c = '\\' then _ else if c.toNat < 0x20 then _ else _) = _
  rw [if_neg hquote, if_neg hbackslash, if_neg (by omega)]

theorem foldl_step_short {letter c : Char} (h : (letter, c) ∈ shortEscapes) (draft : Draft) :
    ['\\', letter].foldl step ⟨.string draft, toks⟩ = ⟨.string (draft.add c), toks⟩ := by
  simp only [shortEscapes, List.mem_cons, Prod.mk.injEq, List.not_mem_nil, or_false] at h
  rcases h with ⟨rfl, rfl⟩ | ⟨rfl, rfl⟩ | ⟨rfl, rfl⟩ | ⟨rfl, rfl⟩ | ⟨rfl, rfl⟩ | ⟨rfl, rfl⟩ |
    ⟨rfl, rfl⟩ | ⟨rfl, rfl⟩ <;> rfl

theorem step_digit {c : Char} {d : Nat} (h : Text.digitValue? c = some d) (draft : Draft)
    (due value : Nat) : step ⟨.unit draft (due + 2) value, toks⟩ c =
      ⟨.unit draft (due + 1) (value * 16 + d), toks⟩ := by
  rw [step, h]
  exact if_neg (by omega)

theorem step_lastDigit {c : Char} {d : Nat} (h : Text.digitValue? c = some d) (draft : Draft)
    (value : Nat) : step ⟨.unit draft 1 value, toks⟩ c =
      ⟨.string (draft.addUnit (value * 16 + d)), toks⟩ := by
  rw [step, h]
  rfl

theorem foldl_step_unit {n : Nat} {cs : List Char} (h : FourDigits n cs) (draft : Draft) :
    ('\\' :: 'u' :: cs).foldl step ⟨.string draft, toks⟩ = ⟨.string (draft.addUnit n), toks⟩ := by
  obtain ⟨h₃, h₂, h₁, h₀⟩ := h
  have hstart : step (step ⟨.string draft, toks⟩ '\\') 'u' = ⟨.unit draft 4 0, toks⟩ := rfl
  simp only [List.foldl_cons, List.foldl_nil]
  rw [hstart, step_digit h₃, step_digit h₂, step_digit h₁, step_lastDigit h₀, Nat.zero_mul,
    Nat.zero_add]

end Lexer

namespace Draft

/-- A draft in which no half of a pair is alone. -/
def clean (chars : List Char) : Draft := ⟨chars, none, true⟩

theorem add_clean (chars : List Char) (c : Char) : (clean chars).add c = clean (c :: chars) := rfl

theorem addUnit_clean (chars : List Char) (c : Char) :
    (clean chars).addUnit c.toNat = clean (c :: chars) := by
  -- A character is no half of a pair.
  have hvalid : c.toNat < 0xD800 ∨ 0xDFFF < c.toNat ∧ c.toNat < 0x110000 := c.valid
  rw [addUnit, if_neg (by omega), if_neg (by omega), Char.ofNat_toNat, add_clean]

theorem addUnit_pair (chars : List Char) {c : Char} (hlarge : 0x10000 ≤ c.toNat) :
    ((clean chars).addUnit (0xD800 + (c.toNat - 0x10000) / 0x400)).addUnit
      (0xDC00 + (c.toNat - 0x10000) % 0x400) = clean (c :: chars) := by
  have hvalid : c.toNat < 0xD800 ∨ 0xDFFF < c.toNat ∧ c.toNat < 0x110000 := c.valid
  have hfirst : (clean chars).addUnit (0xD800 + (c.toNat - 0x10000) / 0x400) =
      ⟨chars, some (0xD800 + (c.toNat - 0x10000) / 0x400), true⟩ := by
    rw [addUnit, if_pos (by omega)]
    rfl
  have hchar : 0x10000 + (0xD800 + (c.toNat - 0x10000) / 0x400 - 0xD800) * 0x400 +
      (0xDC00 + (c.toNat - 0x10000) % 0x400 - 0xDC00) = c.toNat := by omega
  rw [hfirst, addUnit, if_neg (by omega), if_pos (by omega)]
  show (⟨Char.ofNat _ :: chars, none, true⟩ : Draft) = _
  rw [hchar, Char.ofNat_toNat]
  rfl

end Draft

namespace Lexer

variable {toks : List Token}

theorem foldl_step_char {c : Char} {spelled : List Char} (h : CharSpelling c spelled)
    (chars : List Char) : spelled.foldl step ⟨.string (.clean chars), toks⟩ =
      ⟨.string (.clean (c :: chars)), toks⟩ := by
  cases h with
  | plain hquote hbackslash hcontrol => exact step_plain hquote hbackslash hcontrol _
  | short h => exact foldl_step_short h _
  | unit h => rw [foldl_step_unit h, Draft.addUnit_clean]
  | pair hlarge hhigh hlow =>
    rw [List.foldl_append, foldl_step_unit hhigh, foldl_step_unit hlow, Draft.addUnit_pair _ hlarge]

theorem foldl_step_text {cs spelled : List Char} (h : TextSpelling cs spelled) (chars : List Char) :
    spelled.foldl step ⟨.string (.clean chars), toks⟩ =
      ⟨.string (.clean (cs.reverse ++ chars)), toks⟩ := by
  induction h generalizing chars with
  | nil => rfl
  | cons hc hrest ih => rw [List.foldl_append, foldl_step_char hc, ih]; simp

theorem foldl_step_literal {s : String} {spelled : List Char} (h : TextSpelling s.toList spelled) :
    ('"' :: spelled ++ ['"']).foldl step ⟨.between, toks⟩ = ⟨.between, .text (some s) :: toks⟩ := by
  have hopen : step ⟨.between, toks⟩ '"' = ⟨.string (.clean []), toks⟩ := rfl
  have hclose : ∀ draft : Draft, step ⟨.string draft, toks⟩ '"' =
      ⟨.between, .text draft.content :: toks⟩ := fun _ => rfl
  rw [List.cons_append, List.foldl_cons, hopen, List.foldl_append, foldl_step_text h,
    List.foldl_cons, hclose, List.foldl_nil]
  simp [Draft.content, Draft.clean]

/-! ## Between tokens -/

theorem foldl_step_blank {blank : List Char} (h : blank.all isSpace = true) :
    blank.foldl step ⟨.between, toks⟩ = ⟨.between, toks⟩ := by
  induction blank with
  | nil => rfl
  | cons c rest ih =>
    rw [List.all_cons, Bool.and_eq_true] at h
    have hstep : step ⟨.between, toks⟩ c = ⟨.between, toks⟩ := if_pos h.1
    rw [List.foldl_cons, hstep, ih h.2]

theorem of_mem_punctuation {c : Char} {t : Token} (h : (c, t) ∈ punctuation) :
    punctuation? c = some t ∧ isSpace c = false ∧ c ≠ '"' ∧ t.isWord = false := by
  simp only [punctuation, List.mem_cons, Prod.mk.injEq, List.not_mem_nil, or_false] at h
  rcases h with ⟨rfl, rfl⟩ | ⟨rfl, rfl⟩ | ⟨rfl, rfl⟩ | ⟨rfl, rfl⟩ | ⟨rfl, rfl⟩ | ⟨rfl, rfl⟩ <;>
    decide

theorem step_punctuation {c : Char} {t : Token} (h : (c, t) ∈ punctuation) :
    step ⟨.between, toks⟩ c = ⟨.between, t :: toks⟩ := by
  obtain ⟨hsome, hspace, hquote, -⟩ := of_mem_punctuation h
  show (if isSpace c = true then _ else if c = '"' then _ else _) = _
  rw [if_neg (by simp [hspace]), if_neg hquote, hsome]
  rfl

/-- Nothing in a word ends it. -/
theorem foldl_step_word {word : List Char} (h : ∀ c ∈ word, endsWord c = false) (taken : List Char) :
    word.foldl step ⟨.word taken, toks⟩ = ⟨.word (word.reverse ++ taken), toks⟩ := by
  induction word generalizing taken with
  | nil => rfl
  | cons c rest ih =>
    rw [List.forall_mem_cons] at h
    have hstep : step ⟨.word taken, toks⟩ c = ⟨.word (c :: taken), toks⟩ :=
      if_neg (Bool.eq_false_iff.mp h.1)
    rw [List.foldl_cons, hstep, ih h.2]
    simp

theorem foldl_step_between {word : List Char} (hne : word ≠ [])
    (h : ∀ c ∈ word, endsWord c = false) :
    word.foldl step ⟨.between, toks⟩ = ⟨.word word.reverse, toks⟩ := by
  cases word with
  | nil => exact absurd rfl hne
  | cons c rest =>
    rw [List.forall_mem_cons] at h
    have hc := h.1
    simp only [endsWord, Bool.or_eq_false_iff, decide_eq_false_iff_not, Option.isSome_eq_false_iff,
      Option.isNone_iff_eq_none] at hc
    obtain ⟨⟨hspace, hquote⟩, hnone⟩ := hc
    have hstep : step ⟨.between, toks⟩ c = ⟨.word [c], toks⟩ := by
      show (if isSpace c = true then _ else if c = '"' then _ else _) = _
      rw [if_neg (by simp [hspace]), if_neg hquote, hnone]
    rw [List.foldl_cons, hstep, foldl_step_word h.2]
    simp

/-- A word that is at its end is the token it reads as. -/
theorem foldl_step_atEnd {word rest : List Char} {t : Token} (hword : wordToken? word = some t)
    (hend : ∀ c ∈ rest.head?, endsWord c = true) :
    (rest.foldl step ⟨.word word.reverse, toks⟩).finish =
      (rest.foldl step ⟨.between, t :: toks⟩).finish := by
  have hclose : closeWord ⟨.word word.reverse, toks⟩ word.reverse = ⟨.between, t :: toks⟩ := by
    rw [closeWord, List.reverse_reverse, hword]
    rfl
  cases rest with
  | nil => exact hclose
  | cons c rest =>
    have hstep : step ⟨.word word.reverse, toks⟩ c = step ⟨.between, t :: toks⟩ c := by
      show (if endsWord c = true then _ else _) = _
      rw [if_pos (hend c rfl), hclose]
      rfl
    rw [List.foldl_cons, List.foldl_cons, hstep]

end Lexer

/-! ## Tokens -/

theorem endsWord_of_isDigit {c : Char} (h : c.isDigit = true) : Lexer.endsWord c = false := by
  have hne : ∀ other : Char, other.isDigit = false → c ≠ other := by
    intro other hother heq
    rw [← heq, h] at hother
    cases hother
  have hspace : isSpace c = false := by
    simp [isSpace, hne ' ' rfl, hne '\t' rfl, hne '\n' rfl,
      hne '\r' rfl]
  have hpunctuation : punctuation? c = none := by
    simp [punctuation?, hne '[' rfl, hne ']' rfl, hne '\x7b' rfl,
      hne '\x7d' rfl, hne ':' rfl, hne ',' rfl]
  simp [Lexer.endsWord, hspace, hpunctuation, hne '"' rfl]

namespace TokenSpelling

variable {t : Token} {spelled : List Char}

/-- A token that is no word is found at once. -/
theorem foldl_step (h : TokenSpelling t spelled) (hword : t.isWord = false) (toks : List Token) :
    spelled.foldl Lexer.step ⟨.between, toks⟩ = ⟨.between, t :: toks⟩ := by
  cases h with
  | punctuation h => exact Lexer.step_punctuation h
  | text h => exact Lexer.foldl_step_literal h
  | name h =>
    have hnames : ∀ entry ∈ names, entry.2.isWord = true := by decide
    rw [hnames _ h] at hword
    cases hword
  | nat => cases hword

/-- A word is made of characters that do not end it, and is read back as the token. -/
theorem word (h : TokenSpelling t spelled) (hword : t.isWord = true) :
    spelled ≠ [] ∧ (∀ c ∈ spelled, Lexer.endsWord c = false) ∧ wordToken? spelled = some t := by
  cases h with
  | punctuation h =>
    rw [(Lexer.of_mem_punctuation h).2.2.2] at hword
    cases hword
  | text h => cases hword
  | name h =>
    have hnames : ∀ entry ∈ names, entry.1 ≠ [] ∧
        entry.1.all (fun c => !Lexer.endsWord c) = true ∧
        wordToken? entry.1 = some entry.2 := by decide
    obtain ⟨hne, hinside, hread⟩ := hnames _ h
    refine ⟨hne, fun c hc => ?_, hread⟩
    simpa using List.all_eq_true.mp hinside c hc
  | nat n =>
    have hdigits : ∀ c ∈ Nat.toDigits 10 n, c.isDigit = true :=
      fun c hc => Numeral.isDigit_of_mem_toDigits hc
    -- None of the names is made of digits.
    have hno : ∀ word : List Char, word.all Char.isDigit = false → Nat.toDigits 10 n ≠ word := by
      intro word hword heq
      rw [← heq, List.all_eq_true.mpr hdigits] at hword
      cases hword
    refine ⟨Nat.toDigits_ne_nil, fun c hc => endsWord_of_isDigit (hdigits c hc), ?_⟩
    rw [wordToken?, if_neg (hno _ (by decide)), if_neg (hno _ (by decide)),
      if_neg (hno _ (by decide)), Numeral.ofWord?_toDigits]
    rfl

end TokenSpelling

/-- The spelling of tokens that start with no word begins at a place where a word ends. -/
theorem Spelling.endsWord_head? {toks : List Token} {cs : List Char} (h : Spelling toks cs)
    (hhead : ∀ t ∈ toks.head?, t.isWord = false) : ∀ c ∈ cs.head?, Lexer.endsWord c = true := by
  have hspace : ∀ c, isSpace c = true → Lexer.endsWord c = true := by
    intro c hc
    simp [Lexer.endsWord, hc]
  intro c hc
  cases h with
  | nil hblank =>
    exact hspace c (List.all_eq_true.mp hblank c (List.mem_of_mem_head? hc))
  | @cons t rest blank spelled restSpelled hblank ht hrest =>
    cases blank with
    | cons b blank =>
      obtain rfl : b = c := Option.some.inj hc
      exact hspace b (List.all_eq_true.mp hblank b List.mem_cons_self)
    | nil =>
      cases ht with
      | punctuation h =>
        obtain rfl := Option.some.inj hc
        obtain ⟨hsome, -⟩ := Lexer.of_mem_punctuation h
        simp [Lexer.endsWord, hsome]
      | text h =>
        obtain rfl := Option.some.inj hc
        rfl
      | name h =>
        have hnames : ∀ entry ∈ names, entry.2.isWord = true := by decide
        exact absurd (hhead t rfl) (by simp [hnames _ h])
      | nat n => exact absurd (hhead _ rfl) Bool.true_eq_false.mp

theorem Spelling.finish_foldl_step {toks : List Token} {cs : List Char} (h : Spelling toks cs)
    (hapart : toks.IsChain Token.Apart) (before : List Token) :
    (cs.foldl Lexer.step ⟨.between, before⟩).finish = ⟨.between, toks.reverse ++ before⟩ := by
  induction h generalizing before with
  | nil hblank => rw [Lexer.foldl_step_blank hblank]; rfl
  | @cons t rest blank spelled restSpelled hblank ht hrest ih =>
    have hrestApart : rest.IsChain Token.Apart := hapart.tail
    have hnext := ih hrestApart (t :: before)
    rw [List.foldl_append, List.foldl_append, Lexer.foldl_step_blank hblank]
    cases hword : t.isWord with
    | false =>
      rw [ht.foldl_step hword, hnext]
      simp
    | true =>
      -- The lexer is still inside the word; the spelling of the rest shows where it ends.
      obtain ⟨hne, hinside, hread⟩ := ht.word hword
      have hhead : ∀ t' ∈ rest.head?, t'.isWord = false := by
        intro t' ht'
        obtain ⟨rest', rfl⟩ := List.head?_eq_some_iff.mp ht'
        exact (List.isChain_cons_cons.mp hapart).1.resolve_left (by simp [hword])
      rw [Lexer.foldl_step_between hne hinside,
        Lexer.foldl_step_atEnd hread (hrest.endsWord_head? hhead), hnext]
      simp

/-- The tokens of a text are the ones it spells. -/
theorem lex_of_spelling {toks : List Token} {s : String} (h : Spelling toks s.toList)
    (hapart : toks.IsChain Token.Apart) : lex s = ⟨toks, true⟩ := by
  have hfinish := h.finish_foldl_step hapart []
  rw [lex, Lexer.start, hfinish]
  simp

end Json
end FeatureGates
