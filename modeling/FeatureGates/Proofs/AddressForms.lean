import FeatureGates.Address.Reader
import FeatureGates.Proofs.Digits
import Mathlib.Tactic.SplitIfs

/-!
The forms of addresses.

Which texts are addresses is told here without going through them: numbers are digits, an IPv4
address is four of them, an IPv6 address has groups on both sides of the zeros that are left out,
and an endpoint has a port behind its address.  The readers go through a text from the front and
take what they can.  They find these texts and no others, because nothing that may follow one of
the parts could be taken for more of it.
-/

namespace FeatureGates
namespace Address

open Text

theorem whole?_eq_some_iff {α : Type} {a : α} {r : Option (α × List Char)} :
    whole? r = some a ↔ r = some (a, []) := by
  match r with
  | none | some (_, []) | some (_, _ :: _) => simp [whole?]

/-! ## Numbers -/

namespace NumberForm

variable {form : NumberForm} {n : Nat} {cs rest : List Char}

/-- Digits that stand for a number of this form. -/
structure Admits (form : NumberForm) (digits : List Nat) : Prop where
  ne_nil : digits ≠ []
  length_le : ∀ m ∈ form.maxDigits, digits.length ≤ m
  leading : form.leadingZero = false → digits.head? = some 0 → digits.length = 1
  lt_bound : ofDigits form.base digits < form.bound

/-- The text writes the number in this form. -/
def Writes (form : NumberForm) (n : Nat) (cs : List Char) : Prop :=
  ∃ digits, DigitsAre form.base cs digits ∧ form.Admits digits ∧ ofDigits form.base digits = n

theorem Writes.read? (h : form.Writes n cs) (hrest : EndsDigits form.base rest) :
    form.read? (cs ++ rest) = some (n, rest) := by
  obtain ⟨digits, hdigits, hadmits, rfl⟩ := h
  have hlong : (form.maxDigits.map fun m => decide (m < digits.length)).getD false = false := by
    cases hmax : form.maxDigits with
    | none => rfl
    | some m => simpa using hadmits.length_le m hmax
  have hzero : (!form.leadingZero && digits.head? == some 0 && decide (1 < digits.length)) =
      false := by
    cases hleading : form.leadingZero with
    | true => rfl
    | false =>
      have hlen := hadmits.leading hleading
      simp only [Bool.not_false, Bool.true_and, Bool.and_eq_false_imp, beq_iff_eq,
        decide_eq_false_iff_not]
      exact fun hhead => Nat.not_lt.mpr (Nat.le_of_eq (hlen hhead))
  rw [NumberForm.read?, hdigits.takeDigits_append hrest]
  simp only [hlong, hzero, List.isEmpty_eq_false_iff.mpr hadmits.ne_nil, Bool.false_eq_true,
    if_false]
  rw [if_neg (Nat.not_le.mpr hadmits.lt_bound)]

theorem exists_writes (h : form.read? cs = some (n, rest)) :
    ∃ front, cs = front ++ rest ∧ form.Writes n front ∧ EndsDigits form.base rest := by
  obtain ⟨front, heq, hdigits, hends⟩ := exists_digitsAre form.base cs
  simp only [NumberForm.read?] at h
  split_ifs at h with hempty hlong hzero hbound
  cases h
  refine ⟨front, heq, ⟨_, hdigits, ⟨?_, fun m hm => ?_, fun hleading hhead => ?_,
    Nat.lt_of_not_le hbound⟩, rfl⟩, hends⟩
  · simpa using hempty
  · simpa [Option.mem_def.mp hm] using hlong
  · have hne : (takeDigits form.base cs).1.length ≠ 0 := by simpa using hempty
    simp only [hleading, hhead, Bool.not_false, beq_self_eq_true, Bool.true_and,
      decide_eq_true_eq] at hzero
    omega

/-- The number of a whole text. -/
theorem whole?_read?_eq_some_iff : whole? (form.read? cs) = some n ↔ form.Writes n cs := by
  rw [whole?_eq_some_iff]
  constructor
  · intro h
    obtain ⟨front, rfl, hfront, -⟩ := exists_writes h
    rwa [List.append_nil]
  · intro h
    have hread := h.read? endsDigits_nil
    rwa [List.append_nil] at hread

theorem read?_of_ends (h : EndsDigits form.base cs) : form.read? cs = none := by
  rw [NumberForm.read?, takeDigits_of_ends h]
  rfl

end NumberForm

theorem skip?_self (c : Char) (cs : List Char) : skip? c (c :: cs) = some cs := if_pos rfl

theorem skip?_eq_some_iff {c : Char} {cs rest : List Char} :
    skip? c cs = some rest ↔ cs = c :: rest := by
  refine ⟨fun h => ?_, fun h => h ▸ skip?_self c rest⟩
  cases cs with
  | nil => cases h
  | cons d cs =>
    rw [skip?] at h
    split_ifs at h with hd
    rw [hd, Option.some.inj h]

theorem endsDigits_point (rest : List Char) : EndsDigits 10 ('.' :: rest) :=
  endsDigits_cons (by decide) rest

theorem endsDigits_colon (base : Nat) (rest : List Char) : EndsDigits base (':' :: rest) :=
  endsDigits_cons (by decide) rest

/-! ## IPv4 -/

/-- Four octets with points between them. -/
inductive Octets : List Nat → List Char → Prop
  | mk {a b c d : Nat} {as bs cs ds : List Char} (ha : octetForm.Writes a as)
    (hb : octetForm.Writes b bs) (hc : octetForm.Writes c cs) (hd : octetForm.Writes d ds) :
    Octets [a, b, c, d] (as ++ '.' :: (bs ++ '.' :: (cs ++ '.' :: ds)))

variable {octets gs : List Nat} {cs rest : List Char} {first dotted : Bool}

theorem Octets.length_pairOfOctets (h : Octets octets cs) : (pairOfOctets octets).length = 2 := by
  cases h
  rfl

theorem Octets.readOctets? (h : Octets octets cs) (hrest : EndsDigits 10 rest) :
    readOctets? (cs ++ rest) = some (octets, rest) := by
  obtain ⟨ha, hb, hc, hd⟩ := h
  simp only [List.append_assoc, List.cons_append, Address.readOctets?]
  rw [ha.read? (endsDigits_point _)]
  simp only [Option.bind_eq_bind, Option.bind_some, skip?_self]
  rw [hb.read? (endsDigits_point _)]
  simp only [Option.bind_some, skip?_self]
  rw [hc.read? (endsDigits_point _)]
  simp only [Option.bind_some, skip?_self]
  rw [hd.read? hrest]
  rfl

theorem exists_octets_of_read (h : readOctets? cs = some (octets, rest)) :
    ∃ front, cs = front ++ rest ∧ Octets octets front := by
  simp only [Address.readOctets?, Option.bind_eq_bind, Option.bind_eq_some_iff, skip?_eq_some_iff,
    Prod.exists, Option.pure_def, Option.some.injEq, Prod.mk.injEq] at h
  obtain ⟨a, _, ha, _, rfl, b, _, hb, _, rfl, c, _, hc, _, rfl, d, _, hd, rfl, rfl⟩ := h
  obtain ⟨as, rfl, ha', -⟩ := NumberForm.exists_writes ha
  obtain ⟨bs, rfl, hb', -⟩ := NumberForm.exists_writes hb
  obtain ⟨cs, rfl, hc', -⟩ := NumberForm.exists_writes hc
  obtain ⟨ds, rfl, hd', -⟩ := NumberForm.exists_writes hd
  exact ⟨_, by simp, .mk ha' hb' hc' hd'⟩

/-! ## Groups -/

/-- What stands before a group. -/
def colon (first : Bool) : List Char := if first then [] else [':']

/-- Groups with colons between them, and before them unless the first group of all is theirs.  An
IPv4 address may stand for the last two. -/
inductive Groups : (first dotted : Bool) → List Nat → List Char → Prop
  | nil {first : Bool} : Groups first false [] []
  | octets {first : Bool} {octets : List Nat} {cs : List Char} (h : Octets octets cs) :
    Groups first true (pairOfOctets octets) (colon first ++ cs)
  | cons {first dotted : Bool} {g : Nat} {gs : List Nat} {cs rest : List Char}
    (hg : groupForm.Writes g cs) (hgs : Groups false dotted gs rest) :
    Groups first dotted (g :: gs) (colon first ++ (cs ++ rest))

theorem skipColon?_append (first : Bool) (cs : List Char) :
    skipColon? first (colon first ++ cs) = some cs := by
  cases first with
  | true => rfl
  | false => exact skip?_self ':' cs

theorem eq_of_skipColon? (h : skipColon? first cs = some rest) : cs = colon first ++ rest := by
  cases first with
  | true => exact Option.some.inj h
  | false => exact skip?_eq_some_iff.mp h

/-- No group and no octet comes next, with or without a colon. -/
structure Stops (rest : List Char) : Prop where
  ends : EndsDigits 16 rest
  no_point : ∀ c ∈ rest.head?, c ≠ '.'
  colon : ∀ tail, rest = ':' :: tail → EndsDigits 16 tail

theorem Stops.ends_octets (h : Stops rest) : EndsDigits 10 rest := h.ends.mono (by decide)

theorem readOctets?_of_ends (h : EndsDigits 10 cs) : readOctets? cs = none := by
  rw [readOctets?, NumberForm.read?_of_ends h]
  rfl

/-- Where a group is written no octets are: what follows its decimal digits is no point. -/
theorem readOctets?_of_group {g : Nat} (hg : groupForm.Writes g cs) (hends : EndsDigits 10 rest)
    (hpoint : ∀ c ∈ rest.head?, c ≠ '.') : readOctets? (cs ++ rest) = none := by
  obtain ⟨digits, hdigits, -⟩ := hg
  have hcs : '.' ∉ cs := by
    intro hmem
    obtain ⟨d, hd, -⟩ := hdigits.of_mem hmem
    cases hd
  rw [readOctets?]
  cases hread : octetForm.read? (cs ++ rest) with
  | none => rfl
  | some q =>
    obtain ⟨n, left⟩ := q
    obtain ⟨front, heq, ⟨octets, hoctets, -⟩, -⟩ := NumberForm.exists_writes hread
    have hskip : skip? '.' left = none := by
      rw [Option.eq_none_iff_forall_ne_some]
      intro after hafter
      rw [skip?_eq_some_iff.mp hafter] at heq
      rcases List.append_eq_append_iff.mp heq with ⟨tail, hfront, hrest⟩ | ⟨tail, hcs', hleft⟩
      · -- The octet does not reach beyond the group.
        cases tail with
        | nil => exact hpoint '.' (hrest ▸ rfl) rfl
        | cons c tail =>
          obtain ⟨d, hd, hlt⟩ := hoctets.of_mem (c := c) (by simp [hfront])
          exact Nat.not_le.mpr hlt (hends c (hrest ▸ rfl) d hd)
      · cases tail with
        | nil =>
          rw [List.nil_append] at hleft
          exact hpoint '.' (hleft ▸ rfl) rfl
        | cons c tail =>
          obtain rfl := (List.cons.inj hleft).1
          exact hcs (by simp [hcs'])
    simp [hskip]

theorem readGroups_of_stops (hrest : Stops rest) (room : Nat) (first : Bool) :
    readGroups room first rest = ⟨[], false, rest⟩ := by
  cases room with
  | zero => rfl
  | succ room =>
    rw [readGroups]
    cases hskip : skipColon? first rest with
    | none => simp
    | some cs =>
      have hends : EndsDigits 16 cs := by
        have heq := eq_of_skipColon? hskip
        cases first with
        | true =>
          obtain rfl : rest = cs := heq
          exact hrest.ends
        | false => exact hrest.colon cs heq
      have hoctets := readOctets?_of_ends (hends.mono (by decide))
      have hgroup : groupForm.read? cs = none := NumberForm.read?_of_ends hends
      simp [hoctets, hgroup]

theorem Groups.ends (h : Groups false dotted gs cs) (hrest : Stops rest) :
    EndsDigits 16 (cs ++ rest) ∧ ∀ c ∈ (cs ++ rest).head?, c ≠ '.' := by
  cases h with
  | nil => exact ⟨hrest.ends, hrest.no_point⟩
  | octets _ | cons _ _ =>
    exact ⟨endsDigits_colon 16 _, fun c hc => Option.some.inj hc ▸ by decide⟩

theorem Groups.readGroups {room : Nat} (h : Groups first dotted gs cs) (hroom : gs.length ≤ room)
    (hrest : Stops rest) : readGroups room first (cs ++ rest) = ⟨gs, dotted, rest⟩ := by
  induction h generalizing room with
  | @nil first => exact readGroups_of_stops hrest room first
  | @octets first octets cs h =>
    rw [h.length_pairOfOctets] at hroom
    obtain ⟨room, rfl⟩ := Nat.exists_eq_add_of_le' hroom
    rw [List.append_assoc, Address.readGroups, skipColon?_append, if_neg (Nat.succ_ne_zero room)]
    simp only [Option.bind_some, h.readOctets? hrest.ends_octets]
  | @cons first dotted g gs cs after hg hgs ih =>
    obtain ⟨room, rfl⟩ := Nat.exists_eq_add_one_of_ne_zero (Nat.ne_zero_of_lt hroom)
    obtain ⟨hends, hpoint⟩ := hgs.ends hrest
    rw [List.append_assoc, List.append_assoc, Address.readGroups, skipColon?_append]
    simp only [Option.bind_some, readOctets?_of_group hg (hends.mono (by decide)) hpoint, ite_self,
      hg.read? hends, ih (Nat.le_of_succ_le_succ hroom)]

/-- What is read as groups is written with groups. -/
theorem exists_groups (room : Nat) (first : Bool) (cs : List Char) : ∃ front,
    cs = front ++ (readGroups room first cs).rest ∧
      Groups first (readGroups room first cs).dotted (readGroups room first cs).groups front ∧
      (readGroups room first cs).groups.length ≤ room := by
  induction room generalizing first cs with
  | zero => exact ⟨[], rfl, .nil, Nat.le_refl 0⟩
  | succ room ih =>
    rw [Address.readGroups]
    split
    case h_1 octets rest hread =>
      split_ifs at hread with hroom
      obtain ⟨cs', hskip, hoctets⟩ := Option.bind_eq_some_iff.mp hread
      obtain ⟨front, rfl, h⟩ := exists_octets_of_read hoctets
      refine ⟨colon first ++ front, ?_, .octets h, ?_⟩
      · rw [eq_of_skipColon? hskip, List.append_assoc]
      · rw [h.length_pairOfOctets]
        omega
    case h_2 =>
      split
      case h_1 => exact ⟨[], rfl, .nil, Nat.zero_le _⟩
      case h_2 g rest hread =>
        obtain ⟨cs', hskip, hgroup⟩ := Option.bind_eq_some_iff.mp hread
        obtain ⟨front, rfl, hg, -⟩ := NumberForm.exists_writes hgroup
        obtain ⟨after, heq, hafter, hlen⟩ := ih false rest
        refine ⟨colon first ++ (front ++ after), ?_, .cons hg hafter, Nat.succ_le_succ hlen⟩
        rw [eq_of_skipColon? hskip, List.append_assoc, List.append_assoc, ← heq]

/-! ## IPv6 -/

/-- Eight groups, or fewer on both sides of two colons in the place of those left out, which are
zero and at least one.  An IPv4 address only comes last. -/
inductive WrittenV6 : BitVec 128 → List Char → Prop
  | whole {dotted : Bool} {gs : List Nat} {cs : List Char} (h : Groups true dotted gs cs)
    (hlen : gs.length = 8) : WrittenV6 (ofGroups gs) cs
  | zeros {dotted : Bool} {before after : List Nat} {cs ds : List Char}
    (hbefore : Groups true false before cs) (hafter : Groups true dotted after ds)
    (hlen : before.length + after.length < 8) :
    WrittenV6 (ofGroups
      (before ++ List.replicate (8 - before.length - after.length) 0 ++ after))
      (cs ++ ':' :: ':' :: ds)

theorem stops_colons (rest : List Char) : Stops (':' :: ':' :: rest) where
  ends := endsDigits_colon 16 _
  no_point c hc := Option.some.inj hc ▸ by decide
  colon tail htail := (List.cons.inj htail).2 ▸ endsDigits_colon 16 rest

theorem WrittenV6.readV6? {bits : BitVec 128} (h : WrittenV6 bits cs) (hrest : Stops rest) :
    readV6? (cs ++ rest) = some (bits, rest) := by
  cases h with
  | whole h hlen =>
    rw [Address.readV6?, h.readGroups (Nat.le_of_eq hlen) hrest]
    exact if_pos hlen
  | @zeros dotted before after cs ds hbefore hafter hlen =>
    have hne : before.length ≠ 8 := by omega
    have hhead := hbefore.readGroups (by omega : before.length ≤ 8) (stops_colons (ds ++ rest))
    have htail := hafter.readGroups (by omega : after.length ≤ 7 - before.length) hrest
    rw [List.append_assoc, List.cons_append, List.cons_append, Address.readV6?, hhead]
    simp only [hne, if_false, Bool.false_eq_true, skip?_self, Option.bind_eq_bind, Option.bind_some,
      htail]
    rfl

theorem exists_writtenV6 {bits : BitVec 128} (h : readV6? cs = some (bits, rest)) :
    ∃ front, cs = front ++ rest ∧ WrittenV6 bits front := by
  obtain ⟨front, heq, hfront, hlen⟩ := exists_groups 8 true cs
  rw [readV6?] at h
  generalize Address.readGroups 8 true cs = head at *
  split_ifs at h with height hdotted
  · cases h
    exact ⟨front, heq, .whole hfront height⟩
  · simp only [Option.bind_eq_bind, Option.bind_eq_some_iff, skip?_eq_some_iff] at h
    obtain ⟨_, hcolon, cs', rfl, hresult⟩ := h
    obtain ⟨back, heq', hback, hlen'⟩ := exists_groups (7 - head.groups.length) true cs'
    cases hresult
    rw [Bool.not_eq_true] at hdotted
    refine ⟨front ++ ':' :: ':' :: back, ?_, .zeros (hdotted ▸ hfront) hback (by omega)⟩
    rw [heq, hcolon, List.append_assoc, List.cons_append, List.cons_append, ← heq']

theorem stops_nil : Stops [] := ⟨endsDigits_nil, nofun, nofun⟩

/-- An IPv6 address is not taken for an IPv4 address. -/
theorem Groups.readOctets?_eq_none (h : Groups true dotted gs cs)
    (hlen : dotted = true → 2 < gs.length) (hrest : Stops rest) :
    readOctets? (cs ++ rest) = none := by
  cases h with
  | nil => exact readOctets?_of_ends hrest.ends_octets
  | octets h => exact absurd (hlen rfl) (by rw [h.length_pairOfOctets]; decide)
  | @cons _ _ g gs cs after hg hgs =>
    obtain ⟨hends, hpoint⟩ := hgs.ends hrest
    have heq : colon true ++ (cs ++ after) ++ rest = cs ++ (after ++ rest) :=
      List.append_assoc cs after rest
    rw [heq]
    exact readOctets?_of_group hg (hends.mono (by decide)) hpoint

theorem WrittenV6.readOctets?_eq_none {bits : BitVec 128} (h : WrittenV6 bits cs) :
    readOctets? cs = none := by
  cases h with
  | whole h hlen =>
    rw [← List.append_nil cs]
    exact h.readOctets?_eq_none (fun _ => by omega) stops_nil
  | zeros hbefore _ _ => exact hbefore.readOctets?_eq_none nofun (stops_colons _)

/-! ## All addresses -/

/-- The texts of an address. -/
inductive WrittenAs : Address → List Char → Prop
  | v4 {octets : List Nat} {cs : List Char} (h : Octets octets cs) :
    WrittenAs (.v4 (ofOctets octets)) cs
  | v6 {bits : BitVec 128} {cs : List Char} (h : WrittenV6 bits cs) : WrittenAs (.v6 bits) cs

theorem readV4?_eq_some_iff {bits : BitVec 32} :
    readV4? cs = some (bits, rest) ↔
      ∃ octets, readOctets? cs = some (octets, rest) ∧ ofOctets octets = bits := by
  simp [readV4?]

/-- An address is read from its texts, and from no other text. -/
theorem ofChars?_eq_some_iff {a : Address} : ofChars? cs = some a ↔ a.WrittenAs cs := by
  rw [ofChars?, whole?_eq_some_iff]
  constructor
  · intro h
    rw [Address.read?] at h
    cases hv4 : readV4? cs with
    | some q =>
      obtain ⟨bits, rest⟩ := q
      obtain ⟨octets, hoctets, hbits⟩ := readV4?_eq_some_iff.mp hv4
      rw [hv4] at h
      cases h
      obtain ⟨front, rfl, hfront⟩ := exists_octets_of_read hoctets
      rw [← hbits, List.append_nil]
      exact .v4 hfront
    | none =>
      rw [hv4] at h
      obtain ⟨⟨bits, rest⟩, hv6, heq⟩ := Option.map_eq_some_iff.mp h
      cases heq
      obtain ⟨front, rfl, hfront⟩ := exists_writtenV6 hv6
      rw [List.append_nil]
      exact .v6 hfront
  · intro h
    cases h with
    | v4 h =>
      have hread := h.readOctets? endsDigits_nil
      rw [List.append_nil] at hread
      rw [Address.read?, readV4?_eq_some_iff.mpr ⟨_, hread, rfl⟩]
    | v6 h =>
      have hread := h.readV6? stops_nil
      rw [List.append_nil] at hread
      rw [Address.read?, readV4?, h.readOctets?_eq_none, hread]
      rfl

/-! ### Their characters -/

/-- The characters of addresses. -/
def isAddressChar (c : Char) : Bool := c = ':' || c = '.' || (digitValue? c).isSome

theorem NumberForm.Writes.isAddressChar {form : NumberForm} {n : Nat} (h : form.Writes n cs) :
    ∀ c ∈ cs, isAddressChar c = true := by
  obtain ⟨digits, hdigits, -⟩ := h
  intro c hc
  obtain ⟨d, hd, -⟩ := hdigits.of_mem hc
  simp [Address.isAddressChar, hd]

theorem Octets.isAddressChar (h : Octets octets cs) : ∀ c ∈ cs, isAddressChar c = true := by
  obtain ⟨ha, hb, hc, hd⟩ := h
  simp only [List.forall_mem_append, List.forall_mem_cons]
  exact ⟨ha.isAddressChar, rfl, hb.isAddressChar, rfl, hc.isAddressChar, rfl, hd.isAddressChar⟩

theorem isAddressChar_colon (first : Bool) : ∀ c ∈ colon first, isAddressChar c = true := by
  cases first with
  | true => nofun
  | false => exact fun c hc => List.mem_singleton.mp hc ▸ rfl

theorem Groups.isAddressChar (h : Groups first dotted gs cs) :
    ∀ c ∈ cs, isAddressChar c = true := by
  induction h with
  | nil => nofun
  | octets h =>
    exact List.forall_mem_append.mpr ⟨isAddressChar_colon _, h.isAddressChar⟩
  | cons hg _ ih =>
    exact List.forall_mem_append.mpr
      ⟨isAddressChar_colon _, List.forall_mem_append.mpr ⟨hg.isAddressChar, ih⟩⟩

theorem WrittenV6.isAddressChar {bits : BitVec 128} (h : WrittenV6 bits cs) :
    ∀ c ∈ cs, isAddressChar c = true := by
  cases h with
  | whole h _ => exact h.isAddressChar
  | zeros hbefore hafter _ =>
    simp only [List.forall_mem_append, List.forall_mem_cons]
    exact ⟨hbefore.isAddressChar, rfl, rfl, hafter.isAddressChar⟩

theorem WrittenAs.isAddressChar {a : Address} (h : a.WrittenAs cs) :
    ∀ c ∈ cs, isAddressChar c = true := by
  cases h with
  | v4 h => exact h.isAddressChar
  | v6 h => exact h.isAddressChar

theorem WrittenAs.notMem {a : Address} (h : a.WrittenAs cs) {c : Char}
    (hc : Address.isAddressChar c = false) : c ∉ cs := by
  intro hmem
  rw [h.isAddressChar c hmem] at hc
  cases hc

/-! ## Endpoints -/

/-- Nothing, or the number of an interface. -/
inductive Scope : List Char → Prop
  | absent : Scope []
  | number {n : Nat} {cs : List Char} (h : scopeForm.Writes n cs) : Scope ('%' :: cs)

/-- The texts of an endpoint at the address: the address and a port, and where the address is of the
longer kind it is in brackets and may have an interface. -/
inductive EndpointWrittenAs : Address → List Char → Prop
  | v4 {octets : List Nat} {port : Nat} {cs ps : List Char} (h : Octets octets cs)
    (hport : portForm.Writes port ps) : EndpointWrittenAs (.v4 (ofOctets octets)) (cs ++ ':' :: ps)
  | v6 {bits : BitVec 128} {port : Nat} {cs scope ps : List Char} (h : WrittenV6 bits cs)
    (hscope : Scope scope) (hport : portForm.Writes port ps) :
    EndpointWrittenAs (.v6 bits) ('[' :: (cs ++ (scope ++ ']' :: ':' :: ps)))

theorem endsDigits_bracket (base : Nat) (rest : List Char) : EndsDigits base (']' :: rest) :=
  endsDigits_cons (by decide) rest

theorem Scope.skipScope {scope : List Char} (h : Scope scope) (rest : List Char) :
    skipScope (scope ++ ']' :: rest) = ']' :: rest := by
  cases h with
  | absent => rfl
  | number h =>
    rw [List.cons_append, Address.skipScope, skip?_self, Option.bind_some,
      h.read? (endsDigits_bracket _ rest)]

theorem Scope.stops {scope : List Char} (h : Scope scope) (rest : List Char) :
    Stops (scope ++ ']' :: rest) := by
  cases h with
  | absent => exact ⟨endsDigits_bracket _ _, fun c hc => Option.some.inj hc ▸ by decide, nofun⟩
  | number h =>
    exact ⟨endsDigits_cons (by decide) _, fun c hc => Option.some.inj hc ▸ by decide, nofun⟩

theorem exists_scope (cs : List Char) : ∃ scope, cs = scope ++ skipScope cs ∧ Scope scope := by
  rw [skipScope]
  split
  case h_1 n rest hread =>
    obtain ⟨_, hskip, hnumber⟩ := Option.bind_eq_some_iff.mp hread
    obtain ⟨front, rfl, hfront, -⟩ := NumberForm.exists_writes hnumber
    exact ⟨'%' :: front, skip?_eq_some_iff.mp hskip, .number hfront⟩
  case h_2 => exact ⟨[], rfl, .absent⟩

theorem readPort?_eq_some_iff {port : Nat} :
    readPort? cs = some (port, []) ↔ ∃ ps, cs = ':' :: ps ∧ portForm.Writes port ps := by
  simp only [readPort?, Option.bind_eq_bind, Option.bind_eq_some_iff, skip?_eq_some_iff,
    ← NumberForm.whole?_read?_eq_some_iff, whole?_eq_some_iff]

/-- The address of an endpoint is read from the endpoint's texts, and from no other text. -/
theorem ofEndpoint?_eq_some_iff {a : Address} :
    ofEndpoint? cs = some a ↔ a.EndpointWrittenAs cs := by
  simp only [ofEndpoint?, whole?_eq_some_iff, readEndpoint?, Option.orElse_eq_orElse,
    Option.orElse_eq_or, Option.or_eq_some_iff]
  constructor
  · rintro (h | ⟨-, h⟩)
    · simp only [Option.bind_eq_bind, Option.bind_eq_some_iff, Prod.exists,
        readV4?_eq_some_iff] at h
      obtain ⟨_, after, ⟨octets, hoctets, rfl⟩, port, rest, hport, heq⟩ := h
      obtain ⟨rfl, rfl⟩ := Prod.mk.inj (Option.some.inj heq)
      obtain ⟨front, rfl, hfront⟩ := exists_octets_of_read hoctets
      obtain ⟨ps, rfl, hps⟩ := readPort?_eq_some_iff.mp hport
      exact .v4 hfront hps
    · simp only [Option.bind_eq_bind, Option.bind_eq_some_iff, Prod.exists, skip?_eq_some_iff] at h
      obtain ⟨inside, rfl, bits, after, hv6, afterScope, hscope, port, rest, hport, heq⟩ := h
      obtain ⟨rfl, rfl⟩ := Prod.mk.inj (Option.some.inj heq)
      obtain ⟨front, rfl, hfront⟩ := exists_writtenV6 hv6
      obtain ⟨scope, hafter, hscope'⟩ := exists_scope after
      obtain ⟨ps, rfl, hps⟩ := readPort?_eq_some_iff.mp hport
      rw [hafter, hscope]
      exact .v6 hfront hscope' hps
  · intro h
    cases h with
    | v4 h hport =>
      left
      rw [readV4?, h.readOctets? (endsDigits_colon 10 _)]
      simp [readPort?_eq_some_iff.mpr ⟨_, rfl, hport⟩]
    | v6 h hscope hport =>
      right
      have hplain : ∀ inside, readOctets? ('[' :: inside) = none := fun inside =>
        readOctets?_of_ends (endsDigits_cons (by decide) inside)
      rw [readV4?, hplain, skip?_self]
      simp only [Option.bind_eq_bind, Option.bind_some, h.readV6? (hscope.stops _),
        hscope.skipScope, skip?_self, readPort?_eq_some_iff.mpr ⟨_, rfl, hport⟩]
      exact ⟨rfl, rfl⟩

end Address
end FeatureGates
