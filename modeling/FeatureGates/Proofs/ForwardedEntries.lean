import FeatureGates.Proofs.AddressForms
import FeatureGates.Proofs.Entries
import FeatureGates.Request

/-!
Entries of the forwarded chain.

An entry is meant to be an address, or an endpoint at it, or an IPv6 address in one pair of
brackets.  The reader takes off all brackets that it finds at both ends and does not ask for what
kind of address they were.  So it also lets those entries pass that have any other number of
brackets around an address, and no others.
-/

namespace FeatureGates
namespace Request

open Address (WrittenV6 isAddressChar)

variable {a b : Address} {i j : Nat} {cs t : List Char}

/-! ## Brackets -/

/-- An address after `i` opening brackets and before `j` closing ones. -/
def Bracketed (a : Address) (i j : Nat) (t : List Char) : Prop :=
  ∃ cs, a.WrittenAs cs ∧ t = List.replicate i '[' ++ cs ++ List.replicate j ']'

theorem count_bracket_eq_zero (h : ∀ c ∈ cs, isAddressChar c = true) :
    cs.count '[' = 0 ∧ cs.count ']' = 0 := by
  have hnone : ∀ c, isAddressChar c = false → cs.count c = 0 := by
    intro c hc
    refine List.count_eq_zero.mpr fun hmem => ?_
    rw [h c hmem] at hc
    cases hc
  exact ⟨hnone '[' rfl, hnone ']' rfl⟩

theorem Bracketed.count (h : Bracketed a i j t) : t.count '[' = i ∧ t.count ']' = j := by
  obtain ⟨cs, hcs, rfl⟩ := h
  obtain ⟨hopen, hclose⟩ := count_bracket_eq_zero hcs.isAddressChar
  simp [List.count_append, List.count_replicate, hopen, hclose]

theorem bracketed_zero_iff : Bracketed a 0 0 t ↔ a.WrittenAs t := by
  simp [Bracketed]

theorem exists_brackets (t : List Char) :
    ∃ i j, t = List.replicate i '[' ++ unbracketed t ++ List.replicate j ']' := by
  show ∃ i j, t = List.replicate i '[' ++ (t.dropWhile (· == '[')).rdropWhile (· == ']') ++
    List.replicate j ']'
  have hopen : ∃ i, t.takeWhile (· == '[') = List.replicate i '[' :=
    ⟨_, List.eq_replicate_length.mpr fun c hc => by simpa using List.mem_takeWhile_imp hc⟩
  have hclose : ∃ j, (t.dropWhile (· == '[')).rtakeWhile (· == ']') = List.replicate j ']' :=
    ⟨_, List.eq_replicate_length.mpr fun c hc => by simpa using List.mem_rtakeWhile_imp hc⟩
  obtain ⟨i, hi⟩ := hopen
  obtain ⟨j, hj⟩ := hclose
  refine ⟨i, j, ?_⟩
  rw [← hi, ← hj, List.append_assoc, List.rdropWhile_append_rtakeWhile,
    List.takeWhile_append_dropWhile]

theorem unbracketed_eq (hopen : '[' ∉ cs) (hclose : ']' ∉ cs) (i j : Nat) :
    unbracketed (List.replicate i '[' ++ cs ++ List.replicate j ']') = cs := by
  have hfront : (List.replicate i '[' ++ (cs ++ List.replicate j ']')).dropWhile (· == '[') =
      cs ++ List.replicate j ']' := by
    rw [List.dropWhile_append_of_pos (by simp)]
    cases cs with
    | nil => cases j <;> simp [List.replicate_succ]
    | cons c cs =>
      have hc : c ≠ '[' := fun heq => hopen (heq ▸ List.mem_cons_self)
      simp [hc]
  have hback : (List.replicate j ']' ++ cs.reverse).dropWhile (· == ']') = cs.reverse := by
    rw [List.dropWhile_append_of_pos (by simp)]
    refine List.dropWhile_eq_self_iff.mpr fun hlen => ?_
    rw [beq_iff_eq]
    exact fun heq => hclose (heq ▸ List.mem_reverse.mp (List.getElem_mem hlen))
  rw [unbracketed, List.append_assoc, hfront, List.reverse_append, List.reverse_replicate, hback,
    List.reverse_reverse]

theorem ofChars?_unbracketed_iff :
    Address.ofChars? (unbracketed t) = some a ↔ ∃ i j, Bracketed a i j t := by
  rw [Address.ofChars?_eq_some_iff]
  constructor
  · intro h
    obtain ⟨i, j, ht⟩ := exists_brackets t
    exact ⟨i, j, _, h, ht⟩
  · rintro ⟨i, j, cs, hcs, rfl⟩
    rwa [unbracketed_eq (hcs.notMem rfl) (hcs.notMem rfl)]

theorem Bracketed.unique {i' j' : Nat} (h : Bracketed a i j t) (h' : Bracketed b i' j' t) :
    a = b := by
  have ha := ofChars?_unbracketed_iff.mpr ⟨i, j, h⟩
  have hb := ofChars?_unbracketed_iff.mpr ⟨i', j', h'⟩
  exact Option.some.inj (ha.symm.trans hb)

/-! ## Endpoints -/

theorem isAddressChar_port {port : Nat} {ps : List Char} (h : Address.portForm.Writes port ps) :
    ∀ c ∈ ':' :: ps, isAddressChar c = true :=
  List.forall_mem_cons.mpr ⟨rfl, h.isAddressChar⟩

theorem getLast?_port {port : Nat} {ps : List Char} (h : Address.portForm.Writes port ps)
    (front : List Char) : (front ++ ':' :: ps).getLast? ≠ some ']' := by
  rw [List.getLast?_append_of_ne_nil front (List.cons_ne_nil _ _)]
  intro hlast
  exact absurd (isAddressChar_port h _ (List.mem_of_getLast? hlast)) (by decide)

theorem getLast?_endpoint (h : b.EndpointWrittenAs t) : t.getLast? ≠ some ']' := by
  cases h with
  | v4 _ hport => exact getLast?_port hport _
  | @v6 _ _ cs scope ps _ _ hport =>
    have heq : '[' :: (cs ++ (scope ++ ']' :: ':' :: ps)) =
        ('[' :: (cs ++ scope ++ [']'])) ++ ':' :: ps := by simp
    rw [heq]
    exact getLast?_port hport _

theorem not_writtenAs_endpoint (h : b.EndpointWrittenAs t) : ¬a.WrittenAs t := by
  intro ha
  cases h with
  | v4 h _ =>
    have hread := Address.ofChars?_eq_some_iff.mpr ha
    rw [Address.ofChars?, Address.read?, Address.readV4?,
      h.readOctets? (Address.endsDigits_colon 10 _)] at hread
    cases hread
  | v6 _ _ _ => exact ha.notMem (c := '[') rfl List.mem_cons_self

/-- An endpoint is no address in brackets. -/
theorem not_bracketed_endpoint (h : b.EndpointWrittenAs t) : ¬Bracketed a i j t := by
  intro hbracketed
  obtain ⟨hi, hj⟩ := hbracketed.count
  -- With a bracket at its end it is no endpoint, and without one it has none at all.
  have hclosed : ∃ k, j = k + 1 := by
    refine Nat.exists_eq_add_one_of_ne_zero fun hj0 => ?_
    cases h with
    | v4 h hport =>
      obtain ⟨hopen, -⟩ := count_bracket_eq_zero
        (List.forall_mem_append.mpr ⟨h.isAddressChar, isAddressChar_port hport⟩)
      obtain rfl : i = 0 := hi.symm.trans hopen
      subst hj0
      exact not_writtenAs_endpoint (.v4 h hport) (bracketed_zero_iff.mp hbracketed)
    | v6 _ _ _ => exact List.count_eq_zero.mp (hj.trans hj0) (by simp)
  obtain ⟨k, rfl⟩ := hclosed
  obtain ⟨cs, -, rfl⟩ := hbracketed
  exact getLast?_endpoint h (by simp [List.replicate_succ'])

/-! ## Entries -/

theorem forwardedAddress?_eq_some_iff {entry : String} :
    forwardedAddress? entry = some a ↔ a.EndpointWrittenAs (Text.trimmed entry.toList) ∨
      ∃ i j, Bracketed a i j (Text.trimmed entry.toList) := by
  rw [forwardedAddress?]
  generalize Text.trimmed entry.toList = t
  simp only [Option.or_eq_some_iff, ofChars?_unbracketed_iff]
  constructor
  · rintro (h | ⟨-, h | ⟨-, h⟩⟩)
    · exact .inr ⟨0, 0, bracketed_zero_iff.mpr (Address.ofChars?_eq_some_iff.mp h)⟩
    · exact .inl (Address.ofEndpoint?_eq_some_iff.mp h)
    · exact .inr h
  · rintro (h | ⟨i, j, h⟩)
    · refine .inr ⟨Option.eq_none_iff_forall_ne_some.mpr fun b hb => ?_,
        .inl (Address.ofEndpoint?_eq_some_iff.mpr h)⟩
      exact not_writtenAs_endpoint h (Address.ofChars?_eq_some_iff.mp hb)
    · cases hb : Address.ofChars? t with
      | some b =>
        have hb' := bracketed_zero_iff.mpr (Address.ofChars?_eq_some_iff.mp hb)
        exact .inl (congrArg some (hb'.unique h))
      | none =>
        refine .inr ⟨rfl, .inr ⟨Option.eq_none_iff_forall_ne_some.mpr fun b hb => ?_, i, j, h⟩⟩
        exact not_bracketed_endpoint (Address.ofEndpoint?_eq_some_iff.mp hb) h

/-- The address that an entry is meant to give. -/
inductive MeantEntry : Address → List Char → Prop
  | address {a : Address} {cs : List Char} (h : a.WrittenAs cs) : MeantEntry a cs
  | endpoint {a : Address} {cs : List Char} (h : a.EndpointWrittenAs cs) : MeantEntry a cs
  | bracketed {bits : BitVec 128} {cs : List Char} (h : WrittenV6 bits cs) :
    MeantEntry (.v6 bits) ('[' :: (cs ++ [']']))

/-- An address with brackets around it that it should not have. -/
def OddlyBracketed (a : Address) (t : List Char) : Prop :=
  ∃ i j, Bracketed a i j t ∧ 0 < i + j ∧ ¬(i = 1 ∧ j = 1 ∧ ∃ bits, a = .v6 bits)

theorem meantEntry_iff : MeantEntry a t ↔ a.EndpointWrittenAs t ∨ Bracketed a 0 0 t ∨
    (Bracketed a 1 1 t ∧ ∃ bits, a = .v6 bits) := by
  constructor
  · intro h
    cases h with
    | address h => exact .inr (.inl (bracketed_zero_iff.mpr h))
    | endpoint h => exact .inl h
    | bracketed h => exact .inr (.inr ⟨⟨_, .v6 h, rfl⟩, _, rfl⟩)
  · rintro (h | h | ⟨⟨cs, hcs, rfl⟩, bits, rfl⟩)
    · exact .endpoint h
    · exact .address (bracketed_zero_iff.mp h)
    · cases hcs with
      | v6 h => exact .bracketed h

theorem OddlyBracketed.not_meant (h : OddlyBracketed a t) : ¬MeantEntry b t := by
  obtain ⟨i, j, h, hsome, hodd⟩ := h
  obtain ⟨hi, hj⟩ := h.count
  rw [meantEntry_iff]
  rintro (hb | hb | ⟨hb, bits, rfl⟩)
  · exact not_bracketed_endpoint hb h
  · obtain ⟨hi', hj'⟩ := hb.count
    omega
  · obtain ⟨hi', hj'⟩ := hb.count
    exact hodd ⟨hi.symm.trans hi', hj.symm.trans hj', bits, h.unique hb⟩

/-- The reader takes what is meant to be taken, and everything else. -/
theorem forwardedAddress?_iff_meant {entry : String} :
    forwardedAddress? entry = some a ↔ MeantEntry a (Text.trimmed entry.toList) ∨
      OddlyBracketed a (Text.trimmed entry.toList) := by
  rw [forwardedAddress?_eq_some_iff, meantEntry_iff]
  constructor
  · rintro (h | ⟨i, j, h⟩)
    · exact .inl (.inl h)
    · rcases Nat.eq_zero_or_pos (i + j) with hnone | hsome
      · obtain ⟨rfl, rfl⟩ := Nat.add_eq_zero_iff.mp hnone
        exact .inl (.inr (.inl h))
      · by_cases hpair : i = 1 ∧ j = 1 ∧ ∃ bits, a = .v6 bits
        · obtain ⟨rfl, rfl, hbits⟩ := hpair
          exact .inl (.inr (.inr ⟨h, hbits⟩))
        · exact .inr ⟨i, j, h, hsome, hpair⟩
  · rintro ((h | h | ⟨h, -⟩) | ⟨i, j, h, -⟩)
    · exact .inl h
    · exact .inr ⟨0, 0, h⟩
    · exact .inr ⟨1, 1, h⟩
    · exact .inr ⟨i, j, h⟩

/-- The entry gives the address that it is meant to give, and none where none is meant. -/
def TakenAsMeant (entry : String) : Prop :=
  ∀ a, forwardedAddress? entry = some a ↔ MeantEntry a (Text.trimmed entry.toList)

theorem takenAsMeant_iff {entry : String} :
    TakenAsMeant entry ↔ ∀ a, ¬OddlyBracketed a (Text.trimmed entry.toList) := by
  constructor
  · intro hmeant a hodd
    exact hodd.not_meant ((hmeant a).mp (forwardedAddress?_iff_meant.mpr (.inr hodd)))
  · intro hodd a
    rw [forwardedAddress?_iff_meant]
    exact or_iff_left (hodd a)

/-! ## The chain -/

theorem answer_firstForwarded (entries : List String) :
    (firstForwarded entries).answer = entries.findSome? forwardedAddress? := by
  induction entries with
  | nil => rfl
  | cons entry rest ih =>
    rw [firstForwarded, List.findSome?_cons]
    cases forwardedAddress? entry with
    | none => exact ih
    | some address => rfl

/-- The entry, trimmed, is one of those that give the address `a`. -/
def Taken (a : Address) (entry : String) : Prop :=
  ∃ bare, Text.TrimsTo entry.toList bare ∧ (MeantEntry a bare ∨ OddlyBracketed a bare)

/-- The first of the entries that give an address gives `a`. -/
def FirstTaken (a : Address) (entries : List String) : Prop :=
  ∃ before entry after, entries = before ++ entry :: after ∧ Taken a entry ∧
    ∀ skipped ∈ before, ∀ b, ¬Taken b skipped

theorem forwardedAddress?_iff_taken {entry : String} :
    forwardedAddress? entry = some a ↔ Taken a entry := by
  simp only [forwardedAddress?_iff_meant, Taken, ← Text.trimmed_eq_iff, exists_eq_left']

theorem forwardedAddress?_eq_none_iff {entry : String} :
    forwardedAddress? entry = none ↔ ∀ b, ¬Taken b entry := by
  simp only [Option.eq_none_iff_forall_ne_some, ne_eq, forwardedAddress?_iff_taken]

theorem findSome?_eq_some_iff_firstTaken {entries : List String} :
    entries.findSome? forwardedAddress? = some a ↔ FirstTaken a entries := by
  simp only [List.findSome?_eq_some_iff, forwardedAddress?_iff_taken,
    forwardedAddress?_eq_none_iff, FirstTaken]

theorem findSome?_eq_none_iff_taken {entries : List String} :
    entries.findSome? forwardedAddress? = none ↔ ∀ entry ∈ entries, ∀ b, ¬Taken b entry := by
  simp only [List.findSome?_eq_none_iff, forwardedAddress?_eq_none_iff]

theorem notices_firstForwarded (entries : List String) : (firstForwarded entries).notices =
    (entries.takeWhile fun entry => (forwardedAddress? entry).isNone).map
      .unreadableForwardedEntry := by
  induction entries with
  | nil => rfl
  | cons entry rest ih =>
    rw [firstForwarded, List.takeWhile_cons]
    cases forwardedAddress? entry with
    | none => exact congrArg (Notice.unreadableForwardedEntry entry :: ·) ih
    | some address => rfl

theorem log_unreadable (entries : List String) :
    Notice.log (entries.map .unreadableForwardedEntry) = entries.map fun entry =>
      ⟨.warn, "ignoring unparseable X-Forwarded-For entry '" ++ entry ++ "'"⟩ := by
  rw [Notice.log, List.filterMap_map]
  exact congrFun List.filterMap_eq_map' entries

/-- Whether an entry gives an address: besides those that are meant to, just the ones with other
brackets around an address do.  The client that is asked for in a chain is what the first of all
these entries gives, and those before it are skipped with a warning each. -/
theorem forwarded_by_forms (entry : String) :
    (∀ a, forwardedAddress? entry = some a ↔
      MeantEntry a (Text.trimmed entry.toList) ∨ OddlyBracketed a (Text.trimmed entry.toList)) ∧
    (TakenAsMeant entry ↔ ∀ a, ¬OddlyBracketed a (Text.trimmed entry.toList)) ∧
    ∀ r : Request,
      (r.client true).answer = (r.forwardedFor.findSome? forwardedAddress?).or r.remote ∧
      Notice.log (r.client true).notices =
        (r.forwardedFor.takeWhile fun entry => (forwardedAddress? entry).isNone).map fun entry =>
          ⟨.warn, "ignoring unparseable X-Forwarded-For entry '" ++ entry ++ "'"⟩ := by
  refine ⟨fun a => forwardedAddress?_iff_meant, takenAsMeant_iff, fun r => ?_⟩
  rw [client, if_pos rfl]
  constructor
  · rw [Noted.answer_map, answer_firstForwarded]
  · rw [← log_unreadable, ← notices_firstForwarded]
    rfl

/-- An IPv4 address in brackets is let pass, and so is an address with two brackets before it and
none behind it. -/
theorem not_takenAsMeant_brackets :
    forwardedAddress? "[203.0.113.9]" = some (.v4 0xCB007109) ∧
      ¬TakenAsMeant "[203.0.113.9]" ∧
      forwardedAddress? "[[::1" = some (.v6 1) ∧ ¬TakenAsMeant "[[::1" := by
  have hv4 : Address.WrittenAs (.v4 0xCB007109) "203.0.113.9".toList :=
    Address.ofChars?_eq_some_iff.mp (by decide +kernel)
  have hv6 : Address.WrittenAs (.v6 1) "::1".toList :=
    Address.ofChars?_eq_some_iff.mp (by decide +kernel)
  have hpair : OddlyBracketed (.v4 0xCB007109) "[203.0.113.9]".toList :=
    ⟨1, 1, ⟨_, hv4, rfl⟩, by decide, nofun⟩
  have hopen : OddlyBracketed (.v6 1) "[[::1".toList :=
    ⟨2, 0, ⟨_, hv6, rfl⟩, by decide, nofun⟩
  exact ⟨forwardedAddress?_iff_meant.mpr (.inr hpair), fun h => takenAsMeant_iff.mp h _ hpair,
    forwardedAddress?_iff_meant.mpr (.inr hopen), fun h => takenAsMeant_iff.mp h _ hopen⟩

end Request
end FeatureGates
