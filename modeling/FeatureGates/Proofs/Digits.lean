import FeatureGates.Text.Digits

/-!
Digits that are written and read back.

A reader of digits stops at the first character that is none of the base, so what is written in
front of such a character is read back, and the rest is left as it is.
-/

namespace FeatureGates
namespace Text

variable {base : Nat}

theorem digitValue?_digitChar {d : Nat} (hd : d < 16) : digitValue? d.digitChar = some d := by
  have hall : ∀ n < 16, digitValue? n.digitChar = some n := by decide
  exact hall d hd

/-- No digit of the base comes next. -/
def EndsDigits (base : Nat) (rest : List Char) : Prop :=
  ∀ c ∈ rest.head?, ∀ d, digitValue? c = some d → base ≤ d

theorem endsDigits_nil : EndsDigits base [] := nofun

theorem endsDigits_cons {c : Char} (hc : digitValue? c = none) (rest : List Char) :
    EndsDigits base (c :: rest) := by
  intro c' hc' d hd
  obtain rfl : c = c' := Option.some.inj hc'
  rw [hc] at hd
  cases hd

theorem takeDigits_of_ends {rest : List Char} (hrest : EndsDigits base rest) :
    takeDigits base rest = ([], rest) := by
  cases rest with
  | nil => rfl
  | cons c rest =>
    rw [takeDigits]
    cases hc : digitValue? c with
    | none => rfl
    | some d => exact if_neg (Nat.not_lt.mpr (hrest c rfl d hc))

theorem EndsDigits.mono {base' : Nat} {rest : List Char} (hbase : base ≤ base')
    (h : EndsDigits base' rest) : EndsDigits base rest :=
  fun c hc d hd => Nat.le_trans hbase (h c hc d hd)

/-- The text consists of digits of the base, and these are their values. -/
inductive DigitsAre (base : Nat) : List Char → List Nat → Prop
  | nil : DigitsAre base [] []
  | cons {c : Char} {d : Nat} {cs : List Char} {digits : List Nat} (hc : digitValue? c = some d)
    (hd : d < base) (h : DigitsAre base cs digits) : DigitsAre base (c :: cs) (d :: digits)

variable {cs rest : List Char} {digits : List Nat}

theorem DigitsAre.of_mem (h : DigitsAre base cs digits) {c : Char} (hc : c ∈ cs) :
    ∃ d, digitValue? c = some d ∧ d < base := by
  induction h with
  | nil => cases hc
  | cons hc' hd _ ih =>
    rcases List.mem_cons.mp hc with rfl | hc
    · exact ⟨_, hc', hd⟩
    · exact ih hc

/-- Digits are read up to where they end. -/
theorem DigitsAre.takeDigits_append (h : DigitsAre base cs digits) (hrest : EndsDigits base rest) :
    takeDigits base (cs ++ rest) = (digits, rest) := by
  induction h with
  | nil => exact takeDigits_of_ends hrest
  | cons hc hd _ ih =>
    rw [List.cons_append, takeDigits, hc]
    dsimp only
    rw [if_pos hd, ih]

theorem exists_digitsAre (base : Nat) (cs : List Char) : ∃ front,
    cs = front ++ (takeDigits base cs).2 ∧ DigitsAre base front (takeDigits base cs).1 ∧
      EndsDigits base (takeDigits base cs).2 := by
  induction cs with
  | nil => exact ⟨[], rfl, .nil, endsDigits_nil⟩
  | cons c rest ih =>
    rw [takeDigits]
    cases hc : digitValue? c with
    | none => exact ⟨[], rfl, .nil, endsDigits_cons hc rest⟩
    | some d =>
      dsimp only
      by_cases hd : d < base
      · obtain ⟨front, heq, hfront, hends⟩ := ih
        rw [if_pos hd]
        exact ⟨c :: front, congrArg (c :: ·) heq, .cons hc hd hfront, hends⟩
      · rw [if_neg hd]
        refine ⟨[], rfl, .nil, fun c' hc' d' hd' => ?_⟩
        obtain rfl : c = c' := Option.some.inj hc'
        obtain rfl : d = d' := Option.some.inj (hc.symm.trans hd')
        exact Nat.le_of_not_lt hd

theorem digitsAre_map_digitChar (hbase : base ≤ 16) (hdigits : ∀ d ∈ digits, d < base) :
    DigitsAre base (digits.map Nat.digitChar) digits := by
  induction digits with
  | nil => exact .nil
  | cons d digits ih =>
    obtain ⟨hd, hdigits⟩ := List.forall_mem_cons.mp hdigits
    exact .cons (digitValue?_digitChar (Nat.lt_of_lt_of_le hd hbase)) hd (ih hdigits)

/-- The text writes the number in decimal digits, of which there is at least one. -/
def Decimal (n : Nat) (cs : List Char) : Prop :=
  ∃ digits, DigitsAre 10 cs digits ∧ digits ≠ [] ∧ ofDigits 10 digits = n

theorem ofDigits_concat (digits : List Nat) (d : Nat) :
    ofDigits base (digits ++ [d]) = ofDigits base digits * base + d := by
  rw [ofDigits, List.foldl_append]
  rfl

theorem number?_of_digits {bound : Nat} (hbase : base ≤ 16) (hdigits : ∀ d ∈ digits, d < base)
    (hne : digits ≠ []) (hbound : ofDigits base digits < bound) :
    number? base bound (digits.map Nat.digitChar) = some (ofDigits base digits) := by
  have htake := (digitsAre_map_digitChar hbase hdigits).takeDigits_append endsDigits_nil
  rw [List.append_nil] at htake
  rw [number?, htake]
  cases digits with
  | nil => exact absurd rfl hne
  | cons d digits => exact if_pos hbound

/-! ## The digits of a number -/

/-- The digits of a number, highest first and without a zero in front. -/
structure DigitsOf (base n : Nat) (digits : List Nat) : Prop where
  lt : ∀ d ∈ digits, d < base
  value : ofDigits base digits = n
  ne_nil : digits ≠ []
  head_ne_zero : 1 < digits.length → digits.head? ≠ some 0

theorem exists_digitsOf (hbase : 1 < base) (n : Nat) :
    ∃ digits, DigitsOf base n digits ∧ Nat.toDigits base n = digits.map Nat.digitChar := by
  induction n using Nat.strongRecOn with
  | ind n ih =>
    rw [Nat.toDigits_eq_if hbase]
    split
    case isTrue hlt =>
      refine ⟨[n], ⟨by simpa using hlt, ?_, by simp, by simp⟩, rfl⟩
      simp [ofDigits]
    case isFalse hge =>
      have hpos : 0 < n / base := Nat.div_pos (Nat.not_lt.mp hge) (by omega)
      obtain ⟨digits, hdigits, hchars⟩ := ih (n / base) (Nat.div_lt_self (by omega) hbase)
      refine ⟨digits ++ [n % base], ⟨?_, ?_, by simp, fun _ => ?_⟩, by rw [hchars]; simp⟩
      · intro d hd
        rcases List.mem_append.mp hd with hd | hd
        · exact hdigits.lt d hd
        · rw [List.mem_singleton.mp hd]
          exact Nat.mod_lt n (by omega)
      · rw [ofDigits_concat, hdigits.value, Nat.mul_comm, Nat.div_add_mod]
      · -- The digits in front are those of a number that is not zero.
        obtain ⟨d, rest, rfl⟩ := List.exists_cons_of_ne_nil hdigits.ne_nil
        intro hhead
        obtain rfl : d = 0 := Option.some.inj hhead
        cases rest with
        | nil =>
          have hzero : 0 * base + 0 = n / base := hdigits.value
          omega
        | cons d' rest => exact hdigits.head_ne_zero (by simp) rfl

end Text
end FeatureGates
