import FeatureGates.Network.Reader
import FeatureGates.Proofs.AddressForms
import FeatureGates.Proofs.Prefixes
import Mathlib.Data.List.TakeDrop

/-!
The forms of networks.

A text is judged by its parts: an address, and after the first slash a length.  What is wrong with
the part before the slash is told first, then whether the other part is a length at all, and last
whether the address has room for it.  Lengths are meant to be written in digits only; the reader
also lets a plus sign pass, and in nothing else does it differ from what is meant.
-/

namespace FeatureGates
namespace Network

open Text (Decimal)

variable {cs front ds : List Char} {a : Address} {l : Nat}

/-! ## Lengths -/

def lengthForm : Address.NumberForm := ⟨10, none, true, 256⟩

theorem writes_lengthForm_iff : lengthForm.Writes l ds ↔ Decimal l ds ∧ l < 256 := by
  constructor
  · rintro ⟨digits, hdigits, hadmits, rfl⟩
    exact ⟨⟨digits, hdigits, hadmits.ne_nil, rfl⟩, hadmits.lt_bound⟩
  · rintro ⟨⟨digits, hdigits, hne, rfl⟩, hlt⟩
    exact ⟨digits, hdigits, ⟨hne, nofun, nofun, hlt⟩, rfl⟩

/-- A length with one plus sign before its digits, or none. -/
def SignedLength (l : Nat) (cs : List Char) : Prop :=
  Decimal l cs ∨ ∃ ds, cs = '+' :: ds ∧ Decimal l ds

theorem not_decimal_plus : ¬Decimal l ('+' :: ds) := by
  rintro ⟨digits, hdigits, -⟩
  obtain ⟨d, hd, -⟩ := hdigits.of_mem List.mem_cons_self
  cases hd

theorem signedLength_plus_iff : SignedLength l ('+' :: ds) ↔ Decimal l ds := by
  simp [SignedLength, not_decimal_plus]

theorem signedLength_iff_of_ne (h : ∀ rest, cs ≠ '+' :: rest) :
    SignedLength l cs ↔ Decimal l cs := by
  simp [SignedLength, h]

theorem readLength?_eq_some_iff : readLength? cs = some l ↔ SignedLength l cs ∧ l < 256 := by
  rw [readLength?.eq_def]
  split
  case h_1 ds =>
    rw [signedLength_plus_iff, ← writes_lengthForm_iff]
    exact Address.NumberForm.whole?_read?_eq_some_iff
  case h_2 hne =>
    rw [signedLength_iff_of_ne fun rest heq => hne rest heq, ← writes_lengthForm_iff]
    exact Address.NumberForm.whole?_read?_eq_some_iff

theorem lt_of_of?_eq_some {n : Network} (h : of? a l = some n) : l < 256 := by
  have hle : l ≤ a.width := (of?_isSome_iff a l).mp (by rw [h]; rfl)
  cases a with
  | v4 bits => exact Nat.lt_of_le_of_lt hle (by decide : 32 < 256)
  | v6 bits => exact Nat.lt_of_le_of_lt hle (by decide : 128 < 256)

/-! ## The two parts -/

theorem ne_slash_of_notMem (h : '/' ∉ cs) : ∀ c ∈ cs, (c != '/') = true := by
  intro c hc
  rw [bne_iff_ne]
  rintro rfl
  exact h hc

theorem splitSlash_append (hfront : '/' ∉ front) (rest : List Char) :
    splitSlash (front ++ '/' :: rest) = (front, some rest) := by
  have hpass := ne_slash_of_notMem hfront
  rw [splitSlash, List.span_eq_takeWhile_dropWhile, List.takeWhile_append_of_pos hpass,
    List.dropWhile_append_of_pos hpass]
  simp

theorem splitSlash_of_notMem (h : '/' ∉ cs) : splitSlash cs = (cs, none) := by
  have hpass := ne_slash_of_notMem h
  rw [← List.append_nil cs, splitSlash, List.span_eq_takeWhile_dropWhile,
    List.takeWhile_append_of_pos hpass, List.dropWhile_append_of_pos hpass]
  rfl

theorem slash_notMem (h : a.WrittenAs cs) : '/' ∉ cs :=
  h.notMem (by decide)

/-- What becomes of a text, where `IsLength` says which texts write a length. -/
inductive Judged (IsLength : Nat → List Char → Prop) :
    List Char → Except NetworkFault Network → Prop
  | single {a : Address} {cs : List Char} {n : Network} (ha : a.WrittenAs cs)
    (hn : Network.of a a.width = .ok n) : Judged IsLength cs (.ok n)
  | sized {a : Address} {front ds : List Char} {l : Nat} {n : Network} (ha : a.WrittenAs front)
    (hl : IsLength l ds) (hn : Network.of a l = .ok n) :
    Judged IsLength (front ++ '/' :: ds) (.ok n)
  | noAddress {front after : List Char} (hfront : '/' ∉ front)
    (hafter : after = [] ∨ ['/'] <+: after) (hno : ∀ a : Address, ¬a.WrittenAs front) :
    Judged IsLength (front ++ after) (.error .address)
  | noLength {a : Address} {front ds : List Char} (ha : a.WrittenAs front)
    (hno : ∀ l < 256, ¬IsLength l ds) : Judged IsLength (front ++ '/' :: ds) (.error .length)
  | tooLong {a : Address} {front ds : List Char} {l : Nat} (ha : a.WrittenAs front)
    (hl : IsLength l ds) (hbyte : l < 256) (hlong : a.width < l) :
    Judged IsLength (front ++ '/' :: ds) (.error .tooLong)

theorem exists_of_iff : (∃ n, Network.of a l = .ok n) ↔ l ≤ a.width := by
  simp only [of_eq_ok_iff, ← of?_isSome_iff, Option.isSome_iff_exists]

/-- Every text is judged somehow. -/
theorem exists_judged (IsLength : Nat → List Char → Prop) (cs : List Char) :
    ∃ r, Judged IsLength cs r := by
  obtain ⟨front, after, rfl, hfront, hafter⟩ : ∃ front after, cs = front ++ after ∧
      '/' ∉ front ∧ (after = [] ∨ ['/'] <+: after) := by
    by_cases h : '/' ∈ cs
    · obtain ⟨front, ds, rfl, hfront⟩ := List.eq_append_cons_of_mem h
      exact ⟨front, _, rfl, hfront, Or.inr ⟨ds, rfl⟩⟩
    · exact ⟨cs, [], (List.append_nil cs).symm, h, Or.inl rfl⟩
  by_cases haddress : ∃ a : Address, a.WrittenAs front
  · obtain ⟨a, ha⟩ := haddress
    rcases hafter with rfl | ⟨ds, rfl⟩
    · obtain ⟨n, hn⟩ := exists_of_iff.mpr (Nat.le_refl a.width)
      rw [List.append_nil]
      exact ⟨_, .single ha hn⟩
    · by_cases hlength : ∃ l < 256, IsLength l ds
      · obtain ⟨l, hbyte, hl⟩ := hlength
        by_cases hle : l ≤ a.width
        · obtain ⟨n, hn⟩ := exists_of_iff.mpr hle
          exact ⟨_, .sized ha hl hn⟩
        · exact ⟨_, .tooLong ha hl hbyte (Nat.lt_of_not_le hle)⟩
      · exact ⟨_, .noLength ha fun l hbyte hl => hlength ⟨l, hbyte, hl⟩⟩
  · exact ⟨_, .noAddress hfront hafter fun a ha => haddress ⟨a, ha⟩⟩

/-- The reader makes of a text what it is judged to be. -/
theorem Judged.readChars_eq {r : Except NetworkFault Network} (h : Judged SignedLength cs r) :
    readChars cs = r := by
  cases h with
  | single ha hn =>
    have hread := Address.ofChars?_eq_some_iff.mpr ha
    simp [readChars, splitSlash_of_notMem (slash_notMem ha), hread, Network.single,
      of_eq_ok_iff.mp hn]
  | sized ha hl hn =>
    have hread := Address.ofChars?_eq_some_iff.mpr ha
    have hn' := of_eq_ok_iff.mp hn
    have hl' := readLength?_eq_some_iff.mpr ⟨hl, lt_of_of?_eq_some hn'⟩
    simp [readChars, splitSlash_append (slash_notMem ha), hread, hl', hn']
  | @noAddress front after hfront hafter hno =>
    have hread : Address.ofChars? front = none := by
      rw [Option.eq_none_iff_forall_ne_some]
      exact fun a ha => hno a (Address.ofChars?_eq_some_iff.mp ha)
    rcases hafter with rfl | ⟨ds, rfl⟩
    · simp [readChars, splitSlash_of_notMem hfront, hread]
    · simp [readChars, splitSlash_append hfront, hread]
  | @noLength a front ds ha hno =>
    have hread := Address.ofChars?_eq_some_iff.mpr ha
    have hl : readLength? ds = none := by
      rw [Option.eq_none_iff_forall_ne_some]
      intro l hl
      obtain ⟨hsigned, hbyte⟩ := readLength?_eq_some_iff.mp hl
      exact hno l hbyte hsigned
    simp [readChars, splitSlash_append (slash_notMem ha), hread, hl]
  | tooLong ha hl hbyte hlong =>
    have hread := Address.ofChars?_eq_some_iff.mpr ha
    have hl' := readLength?_eq_some_iff.mpr ⟨hl, hbyte⟩
    simp [readChars, splitSlash_append (slash_notMem ha), hread, hl',
      of?_eq_none (Nat.not_le.mpr hlong)]

theorem judged_iff {r : Except NetworkFault Network} :
    Judged SignedLength cs r ↔ readChars cs = r := by
  refine ⟨Judged.readChars_eq, fun h => ?_⟩
  obtain ⟨r', hr'⟩ := exists_judged SignedLength cs
  rwa [← h, hr'.readChars_eq]

/-! ## The plus sign -/

/-- An address, a slash, and a length with a plus sign before it. -/
def PlusLength (cs : List Char) : Prop :=
  ∃ (a : Address) (front : List Char) (l : Nat) (ds : List Char),
    cs = front ++ '/' :: '+' :: ds ∧ a.WrittenAs front ∧ Decimal l ds ∧ l < 256

/-- Only what comes behind an address and a slash is ever judged as a length. -/
theorem Judged.congr {P Q : Nat → List Char → Prop} {r : Except NetworkFault Network}
    (h : ∀ (a : Address) (front ds : List Char) (l : Nat), cs = front ++ '/' :: ds →
      a.WrittenAs front → l < 256 → (P l ds ↔ Q l ds)) (hr : Judged P cs r) : Judged Q cs r := by
  cases hr with
  | single ha hn => exact .single ha hn
  | sized ha hl hn =>
    have hbyte := lt_of_of?_eq_some (of_eq_ok_iff.mp hn)
    exact .sized ha ((h _ _ _ _ rfl ha hbyte).mp hl) hn
  | noAddress hfront hafter hno => exact .noAddress hfront hafter hno
  | noLength ha hno =>
    exact .noLength ha fun l hbyte hl => hno l hbyte ((h _ _ _ l rfl ha hbyte).mpr hl)
  | tooLong ha hl hbyte hlong => exact .tooLong ha ((h _ _ _ _ rfl ha hbyte).mp hl) hbyte hlong

theorem judged_decimal_iff {r : Except NetworkFault Network} (h : ¬PlusLength cs) :
    Judged Decimal cs r ↔ Judged SignedLength cs r := by
  have hsame : ∀ (a : Address) (front ds : List Char) (l : Nat), cs = front ++ '/' :: ds →
      a.WrittenAs front → l < 256 → (Decimal l ds ↔ SignedLength l ds) := by
    intro a front ds l heq ha hbyte
    refine ⟨Or.inl, fun hl => hl.resolve_right ?_⟩
    rintro ⟨rest, rfl, hrest⟩
    exact h ⟨a, front, l, rest, heq, ha, hrest, hbyte⟩
  exact ⟨Judged.congr hsame, Judged.congr fun a front ds l heq ha hbyte =>
    (hsame a front ds l heq ha hbyte).symm⟩

theorem PlusLength.judged_decimal (h : PlusLength cs) : Judged Decimal cs (.error .length) := by
  obtain ⟨a, front, l, ds, rfl, ha, -, -⟩ := h
  exact .noLength ha fun l _ => not_decimal_plus

theorem PlusLength.not_judged (h : PlusLength cs) :
    ¬Judged SignedLength cs (.error .length) := by
  obtain ⟨a, front, l, ds, rfl, ha, hl, hbyte⟩ := h
  rw [judged_iff, readChars, splitSlash_append (slash_notMem ha)]
  have hread := Address.ofChars?_eq_some_iff.mpr ha
  have hl' := readLength?_eq_some_iff.mpr ⟨signedLength_plus_iff.mpr hl, hbyte⟩
  cases hn : of? a l <;> simp [hread, hl', hn]

theorem parse_eq_iff {s : String} {r : Except NetworkFault Network} :
    (parse s = r.mapError fun fault => ⟨s, fault⟩) ↔ readChars (Text.trimmed s.toList) = r := by
  rw [parse]
  cases readChars (Text.trimmed s.toList) <;> cases r <;> simp [Except.mapError]

/-- The reader makes of the text what its parts are meant to say, with lengths in digits only. -/
def ReadAsMeant (s : String) : Prop :=
  ∀ r, Judged Decimal (Text.trimmed s.toList) r ↔ parse s = r.mapError fun fault => ⟨s, fault⟩

/-- Whether a text is a network, and why not: the white space around it does not count, the first
fault is told, and the text is told as it was given.  A length is a number in digits, as it is meant
to be, or such a number with a plus sign; so a text goes wrong just when it has that sign. -/
theorem parse_by_forms (s : String) :
    (∀ r, Judged SignedLength (Text.trimmed s.toList) r ↔
      parse s = r.mapError fun fault => ⟨s, fault⟩) ∧
    (ReadAsMeant s ↔ ¬PlusLength (Text.trimmed s.toList)) ∧
    NetworkFault.address.message = "invalid address" ∧
    NetworkFault.length.message = "invalid prefix length" ∧
    NetworkFault.tooLong.message = "prefix length is too long" := by
  have hsigned : ∀ r, Judged SignedLength (Text.trimmed s.toList) r ↔
      parse s = r.mapError fun fault => ⟨s, fault⟩ := by
    intro r
    rw [judged_iff, parse_eq_iff]
  refine ⟨hsigned, ⟨fun hmeant hplus => ?_, fun hplus r => ?_⟩, rfl, rfl, rfl⟩
  · exact hplus.not_judged ((hsigned _).mpr ((hmeant _).mp hplus.judged_decimal))
  · rw [judged_decimal_iff hplus, hsigned]

/-- A length with a plus sign is let pass. -/
theorem not_readAsMeant_plus :
    parse "10.0.0.0/+8" = .ok (ofV4 0x0A000000 8 (by decide)) ∧
      parse "10.0.0.0/8" = .ok (ofV4 0x0A000000 8 (by decide)) ∧ ¬ReadAsMeant "10.0.0.0/+8" := by
  have hread : parse "10.0.0.0/+8" = .ok (ofV4 0x0A000000 8 (by decide)) := by rfl
  have haddress : Address.WrittenAs (.v4 0x0A000000) "10.0.0.0".toList :=
    Address.ofChars?_eq_some_iff.mp (by decide +kernel)
  have hplus : PlusLength "10.0.0.0/+8".toList :=
    ⟨_, _, 8, ['8'], rfl, haddress, ⟨[8], .cons rfl (by decide) .nil, by decide, rfl⟩, by decide⟩
  refine ⟨hread, by rfl, fun hmeant => ?_⟩
  have hfault := (hmeant _).mp hplus.judged_decimal
  rw [hread] at hfault
  cases hfault

end Network
end FeatureGates
