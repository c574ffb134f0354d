import FeatureGates.Network.TableReader
import FeatureGates.Proofs.AddressText
import FeatureGates.Proofs.NetworkForms
import FeatureGates.Proofs.Reading

/-!
Networks that are written and read back.

A network is kept in the form that building it again gives: an IPv6 network with a mapped address
is shorter than the mapped block.  So the address in its text, which shows the point notation, is
read as the IPv6 address that it is, and with the length after it the same network is built.
-/

namespace FeatureGates

namespace Text

/-- Trimming leaves a text without blanks alone. -/
theorem trimmed_of_forall {cs : List Char} (h : ∀ c ∈ cs, isBlank c = false) : trimmed cs = cs := by
  have hdrop : ∀ {cs : List Char}, (∀ c ∈ cs, isBlank c = false) → cs.dropWhile isBlank = cs := by
    intro cs h
    cases cs with
    | nil => rfl
    | cons c rest => rw [List.dropWhile_cons, h c List.mem_cons_self]; rfl
  have hreverse : ∀ c ∈ cs.reverse, isBlank c = false := fun c hc => h c (List.mem_reverse.mp hc)
  rw [trimmed, hdrop h, hdrop hreverse, List.reverse_reverse]

end Text

namespace Address

theorem isBlank_eq_false {c : Char} (h : isAddressChar c = true) : Text.isBlank c = false := by
  have hrange : 0x2E ≤ c.toNat ∧ c.toNat ≤ 0x66 := by
    simp only [isAddressChar, Bool.or_eq_true, decide_eq_true_eq] at h
    rcases h with (rfl | rfl) | h
    · decide
    · decide
    · rw [Text.digitValue?] at h
      split_ifs at h with hdecimal hlower hupper
      · exact ⟨Nat.le_trans (by decide) hdecimal.1, Nat.le_trans hdecimal.2 (by decide)⟩
      · exact ⟨Nat.le_trans (by decide) hlower.1, hlower.2⟩
      · exact ⟨Nat.le_trans (by decide) hupper.1, Nat.le_trans hupper.2 (by decide)⟩
      · cases h
  simp only [Text.isBlank, Text.blankRanges, List.any_cons, List.any_nil, Bool.or_false,
    Bool.or_eq_false_iff, Bool.and_eq_false_imp, decide_eq_true_eq, decide_eq_false_iff_not]
  omega

end Address

namespace Network

theorem writes_toDigits {n : Nat} (hn : n < 256) : lengthForm.Writes n (Nat.toDigits 10 n) :=
  Address.NumberForm.writes_toDigits (by decide) (by decide) hn nofun

/-- Every network is what is built from its address and its length. -/
theorem of?_self (n : Network) : of? n.address n.length = some n := by
  obtain ⟨address, length, hlength, hmapped⟩ := n
  cases address with
  | v4 bits => exact of?_v4 hlength
  | v6 bits => exact of?_v6_of_short hlength (hmapped bits rfl)

theorem length_lt (n : Network) : n.length < 256 := lt_of_of?_eq_some n.of?_self

theorem isBlank_chars {n : Network} : ∀ c ∈ n.chars, Text.isBlank c = false := by
  have hlength : ∀ c ∈ Nat.toDigits 10 n.length, Address.isAddressChar c = true :=
    (writes_toDigits n.length_lt).isAddressChar
  rw [chars, List.forall_mem_append, List.forall_mem_cons]
  exact ⟨fun c hc => Address.isBlank_eq_false (n.address.writtenAs_chars.isAddressChar c hc), rfl,
    fun c hc => Address.isBlank_eq_false (hlength c hc)⟩

theorem readChars_chars (n : Network) : readChars n.chars = .ok n := by
  have hlength := (writes_lengthForm_iff.mp (writes_toDigits n.length_lt)).1
  have hself : Network.of n.address n.length = .ok n := of_eq_ok_iff.mpr n.of?_self
  exact Judged.readChars_eq (.sized n.address.writtenAs_chars (Or.inl hlength) hself)

/-- The text of a network is read as the network. -/
theorem parse_toText (n : Network) : parse n.toText = .ok n := by
  rw [parse, toText, String.toList_ofList, Text.trimmed_of_forall isBlank_chars, readChars_chars]
  rfl

/-- The same in JSON, however the string is spelled. -/
theorem parseJson_of_writtenAs {n : Network} {text : String} (h : n.toJson.WrittenAs text) :
    parseJson text = .ok n := by
  have hlex : Json.lex text = ⟨[.text (some n.toText)], true⟩ :=
    Json.lex_of_spelling h (Json.isChain_tokens n.toJson)
  simp only [parseJson, hlex, ofToken, parse_toText]
  rfl

theorem writtenAs_render (n : Network) : n.toJson.WrittenAs n.toJson.render :=
  Json.Plain.writtenAs_render rfl

/-- Networks survive being written, as texts and in JSON.  Mapped addresses show their points, and
other IPv6 addresses leave the longest stretch of zeros out. -/
theorem text_roundtrip :
    (∀ n : Network, Network.of n.address n.length = .ok n ∧ parse n.toText = .ok n ∧
      parseJson n.toJson.render = .ok n) ∧
    (∀ (n : Network) text, n.toJson.WrittenAs text → parseJson text = .ok n) ∧
    (∀ s n, parse s = .ok n → parse n.toText = .ok n) ∧
    (∀ a, Address.parse? (Address.toText a) = some a) ∧
    (∀ inner, (Address.v6 (Address.mapped inner)).chars =
      "::ffff:".toList ++ (Address.v4 inner).chars) ∧
    ∀ bits, Address.mapped? bits = none →
      Address.LeavesZerosOut bits (Address.v6 bits).chars := by
  refine ⟨fun n => ⟨of_eq_ok_iff.mpr n.of?_self, n.parse_toText, ?_⟩,
    fun n text => parseJson_of_writtenAs, fun s n _ => n.parse_toText, fun a => ?_,
    Address.v6Chars_mapped, fun bits => Address.v6Chars_leavesZerosOut⟩
  · exact parseJson_of_writtenAs n.writtenAs_render
  · rw [Address.parse?, Address.toText, String.toList_ofList, Address.ofChars?_chars]

/-- A mapped network that is short stays in IPv6 form, though its text has points in it; a longer
one was put into IPv4 form when it was read. -/
theorem text_roundtrip_mapped :
    let n : Network := ⟨.v6 (Address.mapped 0), 80, by decide, fun _ _ _ => by decide⟩
    let m : Network := ofV4 0x0A000000 8 (by decide)
    parse " ::FFFF:0:0/80 " = .ok n ∧ n.toText = "::ffff:0.0.0.0/80" ∧ parse n.toText = .ok n ∧
      parseJson n.toJson.render = .ok n ∧
      parse "::ffff:10.0.0.0/104" = .ok m ∧ m.toText = "10.0.0.0/8" ∧ parse m.toText = .ok m := by
  intro n m
  have hn : parse " ::FFFF:0:0/80 " = .ok n := by rfl
  have hm : parse "::ffff:10.0.0.0/104" = .ok m := by rfl
  obtain ⟨hself, -, hagain, -⟩ := text_roundtrip
  exact ⟨hn, by decide +kernel, hagain _ n hn, (hself n).2.2, hm, by decide +kernel, hagain _ m hm⟩

end Network
end FeatureGates
