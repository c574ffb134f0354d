import FeatureGates.Proofs.Reading

/-!
Texts and their values.

The tokens of a value are the only ones that are read as this value.  So a text has a value just
when its tokens are this value's, and what is known of the value is known of all that was in the
text.
-/

namespace FeatureGates
namespace Json
namespace Reader

variable {r : Reader} {v : Json}

/-- At a token that closes nothing an item starts, or there is a fault either way. -/
theorem step_itemOrEnd (items : List Json) (stack : List Frame) {t : Token}
    (ht : t ≠ .closeArray) :
    step ⟨.itemOrEnd, .array items :: stack⟩ t = step ⟨.value, .array items :: stack⟩ t := by
  cases t <;> first | rfl | contradiction

theorem exists_key (hr : r.due = .nothing v) (toks : List Token) (stack : List Frame)
    (before : List (Option String × Json))
    (h : toks.foldlM step ⟨.key, .object before :: stack⟩ = some r) :
    ∃ key rest, toks = .text key :: rest ∧
      rest.foldlM step ⟨.colon, .member before key :: stack⟩ = some r := by
  match toks with
  | [] =>
    cases h
    cases hr
  | t :: toks =>
    rw [foldlM_step_cons] at h
    cases t with
    | text key => exact ⟨key, toks, rfl, h⟩
    | _ => cases h

mutual
/-- A run that ends with a value has read a value from the place where one was due. -/
theorem exists_value (hr : r.due = .nothing v) (toks : List Token) (stack : List Frame)
    (h : toks.foldlM step ⟨.value, stack⟩ = some r) :
    ∃ j rest, rest.length < toks.length ∧ toks = tokensBefore rest j ∧
      ((deliver j stack).bind fun r => rest.foldlM step r) = some r := by
  match toks with
  | [] =>
    cases h
    cases hr
  | t :: toks =>
    rw [foldlM_step_cons] at h
    cases t with
    | null => exact ⟨.null, toks, Nat.lt_succ_self _, rfl, h⟩
    | bool b => exact ⟨.bool b, toks, Nat.lt_succ_self _, rfl, h⟩
    | number n => exact ⟨.number n, toks, Nat.lt_succ_self _, rfl, h⟩
    | text content => exact ⟨.text content, toks, Nat.lt_succ_self _, rfl, h⟩
    | openArray =>
      obtain ⟨items, rest, hlen, heq, h⟩ := exists_array hr toks stack h
      exact ⟨.array items, rest, Nat.lt_succ_of_lt hlen, heq, h⟩
    | openObject =>
      obtain ⟨members, rest, hlen, heq, h⟩ := exists_object hr toks stack h
      exact ⟨.object members, rest, Nat.lt_succ_of_lt hlen, heq, h⟩
    | closeArray | closeObject | colon | comma => cases h
termination_by (toks.length, 0)

theorem exists_array (hr : r.due = .nothing v) (toks : List Token) (stack : List Frame)
    (h : toks.foldlM step ⟨.itemOrEnd, .array [] :: stack⟩ = some r) :
    ∃ items rest, rest.length < toks.length ∧
      .openArray :: toks = tokensBefore rest (.array items) ∧
      ((deliver (.array items) stack).bind fun r => rest.foldlM step r) = some r := by
  match toks with
  | [] =>
    cases h
    cases hr
  | t :: toks =>
    by_cases ht : t = .closeArray
    · rw [ht, foldlM_step_cons, step_closeArray _ (.inl rfl)] at h
      exact ⟨[], toks, Nat.lt_succ_self _, by rw [ht]; rfl, h⟩
    · -- No token is used up here: the first item is read from the same tokens.
      rw [foldlM_step_cons, step_itemOrEnd [] stack ht, ← foldlM_step_cons] at h
      obtain ⟨item, rest, hlen, heq, hitem⟩ := exists_value hr (t :: toks) _ h
      obtain ⟨items, rest, hlen', rfl, hitems⟩ := exists_items hr rest stack [item] hitem
      exact ⟨item :: items, rest, Nat.lt_trans hlen' hlen, congrArg _ heq, hitems⟩
termination_by (toks.length, 1)

theorem exists_items (hr : r.due = .nothing v) (toks : List Token) (stack : List Frame)
    (before : List Json) (h : toks.foldlM step ⟨.commaOrEnd, .array before :: stack⟩ = some r) :
    ∃ items rest, rest.length < toks.length ∧ toks = itemsBefore (.closeArray :: rest) items ∧
      ((deliver (.array (before.reverse ++ items)) stack).bind fun r => rest.foldlM step r) =
        some r := by
  match toks with
  | [] =>
    cases h
    cases hr
  | t :: toks =>
    rw [foldlM_step_cons] at h
    cases t with
    | comma =>
      obtain ⟨item, rest, hlen, rfl, hitem⟩ := exists_value hr toks _ h
      obtain ⟨items, rest, hlen', rfl, hitems⟩ := exists_items hr rest stack (item :: before) hitem
      refine ⟨item :: items, rest, Nat.lt_succ_of_lt (Nat.lt_trans hlen' hlen), rfl, ?_⟩
      rwa [List.reverse_cons, List.append_assoc] at hitems
    | closeArray =>
      refine ⟨[], toks, Nat.lt_succ_self _, rfl, ?_⟩
      rwa [List.append_nil]
    | _ => cases h
termination_by (toks.length, 0)

theorem exists_member (hr : r.due = .nothing v) (toks : List Token) (stack : List Frame)
    (before : List (Option String × Json)) (key : Option String)
    (h : toks.foldlM step ⟨.colon, .member before key :: stack⟩ = some r) :
    ∃ value rest, rest.length < toks.length ∧ toks = .colon :: tokensBefore rest value ∧
      rest.foldlM step ⟨.commaOrEnd, .object ((key, value) :: before) :: stack⟩ = some r := by
  match toks with
  | [] =>
    cases h
    cases hr
  | t :: toks =>
    rw [foldlM_step_cons] at h
    cases t with
    | colon =>
      obtain ⟨value, rest, hlen, rfl, hvalue⟩ := exists_value hr toks _ h
      exact ⟨value, rest, Nat.lt_succ_of_lt hlen, rfl, hvalue⟩
    | _ => cases h
termination_by (toks.length, 0)

theorem exists_object (hr : r.due = .nothing v) (toks : List Token) (stack : List Frame)
    (h : toks.foldlM step ⟨.keyOrEnd, .object [] :: stack⟩ = some r) :
    ∃ members rest, rest.length < toks.length ∧
      .openObject :: toks = tokensBefore rest (.object members) ∧
      ((deliver (.object members) stack).bind fun r => rest.foldlM step r) = some r := by
  match toks with
  | [] =>
    cases h
    cases hr
  | t :: toks =>
    rw [foldlM_step_cons] at h
    cases t with
    | closeObject =>
      rw [step_closeObject _ (.inl rfl)] at h
      exact ⟨[], toks, Nat.lt_succ_self _, rfl, h⟩
    | text key =>
      obtain ⟨value, rest, hlen, rfl, hvalue⟩ := exists_member hr toks stack [] key h
      obtain ⟨members, rest, hlen', rfl, hmembers⟩ :=
        exists_members hr rest stack [(key, value)] hvalue
      have hshort := Nat.lt_succ_of_lt (Nat.lt_trans hlen' hlen)
      exact ⟨(key, value) :: members, rest, hshort, rfl, hmembers⟩
    | _ => cases h
termination_by (toks.length, 0)

theorem exists_members (hr : r.due = .nothing v) (toks : List Token) (stack : List Frame)
    (before : List (Option String × Json))
    (h : toks.foldlM step ⟨.commaOrEnd, .object before :: stack⟩ = some r) :
    ∃ members rest, rest.length < toks.length ∧
      toks = membersBefore (.closeObject :: rest) members ∧
      ((deliver (.object (before.reverse ++ members)) stack).bind fun r =>
        rest.foldlM step r) = some r := by
  match toks with
  | [] =>
    cases h
    cases hr
  | t :: toks =>
    rw [foldlM_step_cons] at h
    cases t with
    | closeObject =>
      refine ⟨[], toks, Nat.lt_succ_self _, rfl, ?_⟩
      rwa [List.append_nil]
    | comma =>
      obtain ⟨key, after, heq, hkey⟩ := exists_key hr toks stack before h
      have hafter : toks.length = after.length + 1 := congrArg List.length heq
      obtain ⟨value, rest, hlen, rfl, hvalue⟩ := exists_member hr after stack before key hkey
      obtain ⟨members, rest, hlen', rfl, hmembers⟩ :=
        exists_members hr rest stack ((key, value) :: before) hvalue
      refine ⟨(key, value) :: members, rest, ?_, congrArg _ heq, ?_⟩
      · rw [List.length_cons]
        omega
      · rwa [List.reverse_cons, List.append_assoc] at hmembers
    | _ => cases h
termination_by (toks.length, 0)
end

end Reader

/-- Tokens make up a value just when they are its tokens. -/
theorem ofTokens?_eq_some_iff {toks : List Token} {j : Json} :
    ofTokens? toks = some j ↔ toks = j.tokens := by
  constructor
  · intro h
    obtain ⟨r, hrun, hresult⟩ := Option.bind_eq_some_iff.mp h
    have hr : r.due = .nothing j := by
      rw [Reader.result?] at hresult
      split at hresult
      case h_1 value hdue => rw [hdue, Option.some.inj hresult]
      case h_2 => cases hresult
    obtain ⟨value, rest, -, rfl, hrest⟩ := Reader.exists_value hr toks [] hrun
    -- Where the value is complete nothing more is read.
    cases rest with
    | nil =>
      cases hrest
      cases hr
      rfl
    | cons t rest => cases hrest
  · rintro rfl
    exact j.ofTokens?_tokens

/-- A text has a value just when it consists of the value's tokens. -/
theorem parse?_eq_some_iff {text : String} {j : Json} :
    parse? text = some j ↔ lex text = ⟨j.tokens, true⟩ := by
  rw [parse?]
  obtain ⟨toks, sound⟩ := lex text
  cases sound <;> simp [ofTokens?_eq_some_iff]

end Json
end FeatureGates
