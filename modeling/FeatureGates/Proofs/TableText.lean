import FeatureGates.Network.TableReader
import FeatureGates.Proofs.NetworkTables
import FeatureGates.Proofs.Parsing
import Mathlib.Data.List.Nodup

/-!
Tables of networks as they are written.

A text is read as a table just when it is an object of lists of networks, whatever its names are.
Lists under names that differ in case add up, as they do in every table.  Lists under the very same
name do not: of these the text keeps the last one only, and what the others had and it has not is
lost unless another spelling of the name lists it.
-/

namespace FeatureGates
namespace NetworkTable

open Json (Token tokensBefore itemsBefore membersBefore)

variable {networks : List Network} {items : List Json} {members : List (Option String × Json)}
  {entries : List (String × List Network)} {rest toks : List Token} {name : String}

/-! ## What a text lists -/

/-- The value is a string that stands for the network. -/
def IsItem (network : Network) (item : Json) : Prop :=
  ∃ s, item = Json.string s ∧ Network.parse s = .ok network

/-- The member has the name of the entry, and a list of strings for its networks. -/
def IsMember (entry : String × List Network) (member : Option String × Json) : Prop :=
  ∃ items, member = (some entry.1, .array items) ∧ List.Forall₂ IsItem entry.2 items

/-- The text is an object of these lists, in their order and with every repetition of a name. -/
def Lists (text : String) (entries : List (String × List Network)) : Prop :=
  ∃ members, Json.parse? text = some (.object members) ∧ List.Forall₂ IsMember entries members

/-- One more list, and no earlier one under the very same name. -/
def put (finished : List (String × List Network)) (entry : String × List Network) :
    List (String × List Network) :=
  entry :: finished.filter fun e => e.1 ≠ entry.1

theorem ofToken_eq_ok_iff {t : Token} {network : Network} :
    Network.ofToken t = .ok network ↔ ∃ s, t = .text (some s) ∧ Network.parse s = .ok network := by
  cases t with
  | text content =>
    cases content with
    | none => simp [Network.ofToken]
    | some s => cases h : Network.parse s <;> simp [Network.ofToken, Except.mapError, h]
  | _ => simp [Network.ofToken]

namespace Reader

variable {finished : List (String × List Network)} {r : Reader}

/-! ## From lists to the reader -/

theorem addNetwork_of_ofToken {t : Token} {network : Network}
    (h : Network.ofToken t = .ok network) (r : Reader) (name : String) (networks : List Network) :
    r.addNetwork name networks t =
      .ok { r with due := .commaOrEndOfList name (networks ++ [network]) } := by
  rw [addNetwork, h]
  rfl

theorem foldlM_step_cons {r' : Reader} {t : Token} (h : step r t = .ok r') (rest : List Token) :
    (t :: rest).foldlM step r = rest.foldlM step r' := by
  rw [List.foldlM_cons, h]
  rfl

theorem foldlM_step_items (h : List.Forall₂ IsItem networks items) (before : List Network) :
    (itemsBefore (.closeArray :: rest) items).foldlM step
        ⟨.commaOrEndOfList name before, finished⟩ =
      rest.foldlM step ⟨.commaOrEnd, put finished (name, before ++ networks)⟩ := by
  induction h generalizing before with
  | nil =>
    rw [List.append_nil]
    rfl
  | @cons network item networks items hitem _ ih =>
    obtain ⟨s, rfl, hs⟩ := hitem
    have hcomma : step ⟨.commaOrEndOfList name before, finished⟩ .comma =
        .ok ⟨.network name before, finished⟩ := rfl
    have hnetwork : step ⟨.network name before, finished⟩ (.text (some s)) =
        .ok ⟨.commaOrEndOfList name (before ++ [network]), finished⟩ :=
      addNetwork_of_ofToken (ofToken_eq_ok_iff.mpr ⟨s, rfl, hs⟩) _ name before
    rw [itemsBefore, foldlM_step_cons hcomma]
    show (.text (some s) :: itemsBefore _ items).foldlM step _ = _
    rw [foldlM_step_cons hnetwork, ih, List.append_assoc]
    rfl

theorem foldlM_step_array (h : List.Forall₂ IsItem networks items) :
    (tokensBefore rest (.array items)).foldlM step ⟨.list name, finished⟩ =
      rest.foldlM step ⟨.commaOrEnd, put finished (name, networks)⟩ := by
  cases h with
  | nil => rfl
  | @cons network item networks items hitem hitems =>
    obtain ⟨s, rfl, hs⟩ := hitem
    have hopen : step ⟨.list name, finished⟩ .openArray = .ok ⟨.networkOrEnd name, finished⟩ := rfl
    have hnetwork : step ⟨.networkOrEnd name, finished⟩ (.text (some s)) =
        .ok ⟨.commaOrEndOfList name [network], finished⟩ :=
      addNetwork_of_ofToken (ofToken_eq_ok_iff.mpr ⟨s, rfl, hs⟩) _ name []
    rw [tokensBefore, foldlM_step_cons hopen]
    show (.text (some s) :: itemsBefore _ items).foldlM step _ = _
    rw [foldlM_step_cons hnetwork]
    exact foldlM_step_items hitems [network]

theorem foldlM_step_members (h : List.Forall₂ IsMember entries members) :
    (membersBefore [.closeObject] members).foldlM step ⟨.commaOrEnd, finished⟩ =
      .ok ⟨.nothing, entries.foldl put finished⟩ := by
  induction h generalizing finished with
  | nil => rfl
  | cons hmember _ ih =>
    obtain ⟨items, rfl, hitems⟩ := hmember
    show (tokensBefore _ (.array items)).foldlM step ⟨.list _, finished⟩ = _
    rw [foldlM_step_array hitems, ih]
    rfl

/-- The reader takes in all lists of an object. -/
theorem foldlM_step_object (h : List.Forall₂ IsMember entries members) :
    (Json.object members).tokens.foldlM step start = .ok ⟨.nothing, entries.foldl put []⟩ := by
  cases h with
  | nil => rfl
  | cons hmember hmembers =>
    obtain ⟨items, rfl, hitems⟩ := hmember
    show (tokensBefore _ (.array items)).foldlM step ⟨.list _, []⟩ = _
    rw [foldlM_step_array hitems, foldlM_step_members hmembers]
    rfl

/-! ## From the reader to lists -/

/-- A token that is taken for a network is one. -/
theorem exists_network {α : Type} {t : Token} {r : Reader} {f : Reader → Except NetworkTextFault α}
    {result : α} (h : (r.addNetwork name networks t >>= f) = .ok result) :
    ∃ network s, t = .text (some s) ∧ Network.parse s = .ok network ∧
      f { r with due := .commaOrEndOfList name (networks ++ [network]) } = .ok result := by
  rw [addNetwork] at h
  cases hnetwork : Network.ofToken t with
  | error fault =>
    rw [hnetwork] at h
    cases h
  | ok network =>
    obtain ⟨s, hs, hparse⟩ := ofToken_eq_ok_iff.mp hnetwork
    rw [hnetwork] at h
    exact ⟨network, s, hs, hparse, h⟩

theorem exists_items (hr : r.due = .nothing) (toks : List Token) (before : List Network)
    (h : toks.foldlM step ⟨.commaOrEndOfList name before, finished⟩ = .ok r) :
    ∃ networks items rest, List.Forall₂ IsItem networks items ∧ rest.length < toks.length ∧
      toks = itemsBefore (.closeArray :: rest) items ∧
      rest.foldlM step ⟨.commaOrEnd, put finished (name, before ++ networks)⟩ = .ok r := by
  match toks with
  | [] =>
    cases h
    cases hr
  | .closeArray :: toks =>
    refine ⟨[], [], toks, .nil, Nat.lt_succ_self _, rfl, ?_⟩
    rw [List.append_nil]
    exact h
  | [.comma] =>
    cases h
    cases hr
  | .comma :: t :: toks =>
    obtain ⟨network, s, rfl, hs, hrun⟩ := exists_network h
    obtain ⟨networks, items, rest, hitems, hlen, heq, hrest⟩ :=
      exists_items hr toks (before ++ [network]) hrun
    refine ⟨network :: networks, Json.string s :: items, rest, .cons ⟨s, rfl, hs⟩ hitems,
      Nat.lt_succ_of_lt (Nat.lt_succ_of_lt hlen), by rw [heq]; rfl, ?_⟩
    rwa [List.append_assoc] at hrest
  | .openArray :: _ | .openObject :: _ | .closeObject :: _ | .colon :: _ | .null :: _
  | .bool _ :: _ | .number _ :: _ | .text _ :: _ => cases h
termination_by toks.length

theorem step_networkOrEnd {t : Token} (ht : t ≠ .closeArray) :
    step ⟨.networkOrEnd name, finished⟩ t =
      addNetwork ⟨.networkOrEnd name, finished⟩ name [] t := by
  cases t <;> first | rfl | contradiction

theorem exists_array (hr : r.due = .nothing) (toks : List Token)
    (h : toks.foldlM step ⟨.list name, finished⟩ = .ok r) :
    ∃ networks items rest, List.Forall₂ IsItem networks items ∧ rest.length < toks.length ∧
      toks = tokensBefore rest (.array items) ∧
      rest.foldlM step ⟨.commaOrEnd, put finished (name, networks)⟩ = .ok r := by
  match toks with
  | [] | [.openArray] =>
    cases h
    cases hr
  | .openArray :: t :: toks =>
    by_cases ht : t = .closeArray
    · subst ht
      exact ⟨[], [], toks, .nil, Nat.lt_succ_of_lt (Nat.lt_succ_self _), rfl, h⟩
    · have hstep : (step ⟨.networkOrEnd name, finished⟩ t >>= fun r => toks.foldlM step r) =
          .ok r := h
      rw [step_networkOrEnd ht] at hstep
      obtain ⟨network, s, rfl, hs, hrun⟩ := exists_network hstep
      obtain ⟨networks, items, rest, hitems, hlen, rfl, hrest⟩ :=
        exists_items hr toks [network] hrun
      exact ⟨network :: networks, Json.string s :: items, rest, .cons ⟨s, rfl, hs⟩ hitems,
        Nat.lt_succ_of_lt (Nat.lt_succ_of_lt hlen), rfl, hrest⟩
  | .closeArray :: _ | .openObject :: _ | .closeObject :: _ | .colon :: _ | .comma :: _
  | .null :: _ | .bool _ :: _ | .number _ :: _ | .text _ :: _ => cases h

/-- A name, a colon and a list. -/
theorem exists_member (hr : r.due = .nothing) (toks : List Token)
    (h : toks.foldlM step ⟨.key, finished⟩ = .ok r) :
    ∃ entry items rest, List.Forall₂ IsItem entry.2 items ∧ rest.length < toks.length ∧
      toks = .text (some entry.1) :: .colon :: tokensBefore rest (.array items) ∧
      rest.foldlM step ⟨.commaOrEnd, put finished entry⟩ = .ok r := by
  match toks with
  | [] | [.text (some name)] =>
    cases h
    cases hr
  | .text (some name) :: t :: toks =>
    cases t with
    | colon =>
      obtain ⟨networks, items, rest, hitems, hlen, rfl, hrest⟩ := exists_array hr toks h
      exact ⟨(name, networks), items, rest, hitems, Nat.lt_succ_of_lt (Nat.lt_succ_of_lt hlen),
        rfl, hrest⟩
    | _ => cases h
  | .text none :: _ | .openArray :: _ | .closeArray :: _ | .openObject :: _ | .closeObject :: _
  | .colon :: _ | .comma :: _ | .null :: _ | .bool _ :: _ | .number _ :: _ => cases h

theorem exists_members (hr : r.due = .nothing) (toks : List Token)
    (finished : List (String × List Network))
    (h : toks.foldlM step ⟨.commaOrEnd, finished⟩ = .ok r) :
    ∃ entries members, List.Forall₂ IsMember entries members ∧
      toks = membersBefore [.closeObject] members ∧ r.entries = entries.foldl put finished := by
  match toks with
  | [] =>
    cases h
    cases hr
  | [.closeObject] =>
    cases h
    exact ⟨[], [], .nil, rfl, rfl⟩
  | .closeObject :: t :: toks => cases h
  | .comma :: toks =>
    obtain ⟨entry, items, rest, hitems, hlen, rfl, hrest⟩ := exists_member hr toks h
    obtain ⟨entries, members, hmembers, rfl, hentries⟩ := exists_members hr rest _ hrest
    exact ⟨entry :: entries, (some entry.1, .array items) :: members,
      .cons ⟨items, rfl, hitems⟩ hmembers, rfl, hentries⟩
  | .openArray :: _ | .closeArray :: _ | .openObject :: _ | .colon :: _ | .null :: _
  | .bool _ :: _ | .number _ :: _ | .text _ :: _ => cases h
termination_by toks.length

/-- A run to the end has read an object of lists. -/
theorem exists_object (hr : r.due = .nothing) (h : toks.foldlM step start = .ok r) :
    ∃ entries members, List.Forall₂ IsMember entries members ∧
      toks = (Json.object members).tokens ∧ r.entries = entries.foldl put [] := by
  match toks with
  | [] | [.openObject] =>
    cases h
    cases hr
  | .openObject :: t :: toks =>
    cases t with
    | closeObject =>
      cases toks with
      | nil =>
        cases h
        exact ⟨[], [], .nil, rfl, rfl⟩
      | cons t toks => cases h
    | text content =>
      have hkey : (.text content :: toks).foldlM step ⟨.key, []⟩ = .ok r := by
        cases content <;> exact h
      obtain ⟨entry, items, rest, hitems, -, heq, hrest⟩ := exists_member hr _ hkey
      obtain ⟨entries, members, hmembers, rfl, hentries⟩ := exists_members hr rest _ hrest
      exact ⟨entry :: entries, (some entry.1, .array items) :: members,
        .cons ⟨items, rfl, hitems⟩ hmembers, congrArg _ heq, hentries⟩
    | _ => cases h
  | .openArray :: _ | .closeArray :: _ | .closeObject :: _ | .colon :: _ | .comma :: _
  | .null :: _ | .bool _ :: _ | .number _ :: _ | .text _ :: _ => cases h

end Reader

theorem parse_eq_ok_iff {text : String} {t : NetworkTable} :
    parse text = .ok t ↔ ∃ entries, Lists text entries ∧
      t = ofEntries (entries.foldl put []).reverse := by
  rw [parse]
  constructor
  · intro h
    cases hrun : (Json.lex text).tokens.foldlM Reader.step Reader.start with
    | error fault =>
      simp only [hrun] at h
      cases h
    | ok r =>
      simp only [hrun, bind, Except.bind] at h
      split at h
      case h_1 hdue hsound =>
        obtain ⟨entries, members, hmembers, htoks, hentries⟩ := Reader.exists_object hdue hrun
        have hlex : Json.lex text = ⟨(Json.object members).tokens, true⟩ := by
          rw [← htoks, ← hsound]
        cases h
        exact ⟨entries, ⟨members, Json.parse?_eq_some_iff.mpr hlex, hmembers⟩, by rw [hentries]⟩
      case h_2 => cases h
  · rintro ⟨entries, ⟨members, hvalue, hmembers⟩, rfl⟩
    rw [Json.parse?_eq_some_iff.mp hvalue]
    show ((Json.object members).tokens.foldlM Reader.step Reader.start >>= _) = _
    rw [Reader.foldlM_step_object hmembers]
    rfl

theorem itemsPlain_of_isItem (h : List.Forall₂ IsItem networks items) : Json.ItemsPlain items := by
  induction h with
  | nil => trivial
  | cons hitem _ ih =>
    obtain ⟨s, rfl, -⟩ := hitem
    exact ⟨rfl, ih⟩

theorem membersPlain_of_isMember (h : List.Forall₂ IsMember entries members) :
    Json.MembersPlain members := by
  induction h with
  | nil => trivial
  | cons hmember _ ih =>
    obtain ⟨items, rfl, hitems⟩ := hmember
    exact ⟨rfl, itemsPlain_of_isItem hitems, ih⟩

/-- An object of lists is told from its printed text. -/
theorem lists_render {text : String} (h : List.Forall₂ IsMember entries members)
    (htext : (Json.object members).render = text) : Lists text entries := by
  have hplain : (Json.object members).Plain := membersPlain_of_isMember h
  exact ⟨members, Json.parse?_of_writtenAs (htext ▸ hplain.writtenAs_render), h⟩

/-! ## What is kept -/

/-- The entry is the last one under its very name. -/
def Last (entries : List (String × List Network)) (entry : String × List Network) : Prop :=
  ∃ before after, entries = before ++ entry :: after ∧ ∀ later ∈ after, later.1 ≠ entry.1

theorem last_cons_iff {first entry : String × List Network} : Last (first :: entries) entry ↔
    Last entries entry ∨ (entry = first ∧ ∀ later ∈ entries, later.1 ≠ entry.1) := by
  constructor
  · rintro ⟨before, after, heq, hafter⟩
    cases before with
    | nil =>
      obtain ⟨rfl, rfl⟩ := List.cons.inj heq
      exact .inr ⟨rfl, hafter⟩
    | cons _ before => exact .inl ⟨before, after, (List.cons.inj heq).2, hafter⟩
  · rintro (⟨before, after, rfl, hafter⟩ | ⟨rfl, hafter⟩)
    · exact ⟨first :: before, after, rfl, hafter⟩
    · exact ⟨[], entries, rfl, hafter⟩

theorem Last.mem {entry : String × List Network} (h : Last entries entry) : entry ∈ entries := by
  obtain ⟨before, after, rfl, -⟩ := h
  simp

/-- Every name that occurs has a last entry. -/
theorem exists_last {entry : String × List Network} (h : entry ∈ entries) :
    ∃ last, Last entries last ∧ last.1 = entry.1 := by
  induction entries generalizing entry with
  | nil => cases h
  | cons first rest ih =>
    by_cases hlater : ∃ later ∈ rest, later.1 = entry.1
    · obtain ⟨later, hmem, hname⟩ := hlater
      obtain ⟨last, hlast, hlast'⟩ := ih hmem
      exact ⟨last, last_cons_iff.mpr (.inl hlast), hlast'.trans hname⟩
    · have hnone : ∀ later ∈ rest, later.1 ≠ entry.1 := fun later hmem hname =>
        hlater ⟨later, hmem, hname⟩
      have hfirst : entry = first :=
        (List.mem_cons.mp h).resolve_right fun hmem => hnone entry hmem rfl
      exact ⟨entry, last_cons_iff.mpr (.inr ⟨hfirst, hnone⟩), rfl⟩

theorem mem_put {finished : List (String × List Network)} {entry e : String × List Network} :
    e ∈ put finished entry ↔ e = entry ∨ (e ∈ finished ∧ e.1 ≠ entry.1) := by
  simp [put]

theorem mem_foldl_put {finished : List (String × List Network)} {entry : String × List Network} :
    entry ∈ entries.foldl put finished ↔
      Last entries entry ∨ (entry ∈ finished ∧ ∀ later ∈ entries, later.1 ≠ entry.1) := by
  induction entries generalizing finished with
  | nil => simp [Last]
  | cons first rest ih =>
    have hcomm : entry.1 ≠ first.1 ↔ first.1 ≠ entry.1 := ne_comm
    rw [List.foldl_cons, ih, last_cons_iff, mem_put, List.forall_mem_cons, hcomm]
    tauto

theorem mem_lists_iff {entry : String × List Network} :
    entry ∈ (entries.foldl put []).reverse ↔ Last entries entry := by
  simp [mem_foldl_put]

/-- Every network that the text lists is found under the name that it is listed for. -/
def KeepsAll (t : NetworkTable) (entries : List (String × List Network)) : Prop :=
  ∀ entry ∈ entries, ∀ network ∈ entry.2, network ∈ (t.find? entry.1).getD []

/-- The network is listed for a name, but by none of the last entries under a spelling of it. -/
def Dropped (entries : List (String × List Network)) (name : String) (network : Network) : Prop :=
  (∃ networks, (name, networks) ∈ entries ∧ network ∈ networks) ∧
    ∀ last, Last entries last → Text.sameName last.1 name = true → network ∉ last.2

section Kept

variable {text : String} {t : NetworkTable}

theorem eq_of_lists (ht : parse text = .ok t) (h : Lists text entries) :
    t = ofEntries (entries.foldl put []).reverse := by
  have hparse := parse_eq_ok_iff.mpr ⟨entries, h, rfl⟩
  rw [ht] at hparse
  exact Except.ok.inj hparse

theorem isSome_find?_iff (ht : parse text = .ok t) (h : Lists text entries) (name : String) :
    (t.find? name).isSome = true ↔ ∃ entry ∈ entries, Text.sameName entry.1 name = true := by
  rw [eq_of_lists ht h, isSome_find?_ofEntries]
  simp only [mem_lists_iff]
  constructor
  · rintro ⟨last, hlast, hname⟩
    exact ⟨last, hlast.mem, hname⟩
  · rintro ⟨entry, hentry, hname⟩
    obtain ⟨last, hlast, heq⟩ := exists_last hentry
    exact ⟨last, hlast, by rw [heq, hname]⟩

theorem mem_find?_iff (ht : parse text = .ok t) (h : Lists text entries) (name : String)
    (network : Network) : network ∈ (t.find? name).getD [] ↔
      ∃ last, Last entries last ∧ Text.sameName last.1 name = true ∧ network ∈ last.2 := by
  rw [eq_of_lists ht h, getD_find?_ofEntries, mem_networksNamed, Offers]
  simp only [mem_lists_iff]

theorem keepsAll_iff (ht : parse text = .ok t) (h : Lists text entries) :
    t.KeepsAll entries ↔ ∀ name network, ¬Dropped entries name network := by
  constructor
  · rintro hkeeps name network ⟨⟨networks, hentry, hnetwork⟩, hdropped⟩
    obtain ⟨last, hlast, hname, hmem⟩ :=
      (mem_find?_iff ht h name network).mp (hkeeps _ hentry network hnetwork)
    exact hdropped last hlast hname hmem
  · intro hnone entry hentry network hnetwork
    by_contra hlost
    refine hnone entry.1 network ⟨⟨entry.2, hentry, hnetwork⟩, fun last hlast hname hmem => ?_⟩
    exact hlost ((mem_find?_iff ht h _ _).mpr ⟨last, hlast, hname, hmem⟩)

theorem keepsAll_of_nodup (ht : parse text = .ok t) (h : Lists text entries)
    (hnames : (entries.map (·.1)).Nodup) : t.KeepsAll entries := by
  intro entry hentry network hnetwork
  obtain ⟨last, hlast, hname⟩ := exists_last hentry
  obtain rfl := List.inj_on_of_nodup_map hnames hlast.mem hentry hname
  exact (mem_find?_iff ht h _ _).mpr ⟨last, hlast, (Text.sameName_iff _ _).mpr rfl, hnetwork⟩

end Kept

/-- Whether a text is a table, and what is found in it.  A name is found if some list has it, in
whatever case; what it stands for are the networks of the lists that are the last under their
very names.  So nothing that is listed is lost just when nothing is dropped, and nothing is dropped
where no two names are the very same. -/
theorem parse_by_lists (text : String) :
    ((∃ t, parse text = .ok t) ↔ ∃ entries, Lists text entries) ∧
    ∀ t entries, parse text = .ok t → Lists text entries →
      (∀ name, (t.find? name).isSome = true ↔
        ∃ entry ∈ entries, Text.sameName entry.1 name = true) ∧
      (∀ name network, network ∈ (t.find? name).getD [] ↔
        ∃ last, Last entries last ∧ Text.sameName last.1 name = true ∧ network ∈ last.2) ∧
      (t.KeepsAll entries ↔ ∀ name network, ¬Dropped entries name network) ∧
      ((entries.map (·.1)).Nodup → t.KeepsAll entries) := by
  refine ⟨⟨?_, ?_⟩, fun t entries ht h => ⟨isSome_find?_iff ht h, mem_find?_iff ht h,
    keepsAll_iff ht h, keepsAll_of_nodup ht h⟩⟩
  · rintro ⟨t, ht⟩
    obtain ⟨entries, h, -⟩ := parse_eq_ok_iff.mp ht
    exact ⟨entries, h⟩
  · rintro ⟨entries, h⟩
    exact ⟨_, parse_eq_ok_iff.mpr ⟨entries, h, rfl⟩⟩

/-- Two spellings of a name: the lists add up. -/
theorem parse_by_lists_spellings :
    let text := "\x7b\"CorpNet\":[\"10.0.0.0/8\"],\"corpnet\":[\"192.168.1.7\"]\x7d"
    let entries := [("CorpNet", [Network.ofV4 0x0A000000 8 (by decide)]),
      ("corpnet", [Network.ofV4 0xC0A80107 32 (by decide)])]
    ∃ t, parse text = .ok t ∧ Lists text entries ∧ (t.find? "CORPNET").isSome = true ∧
      t.KeepsAll entries := by
  intro text entries
  have hmembers : List.Forall₂ IsMember entries
      [(some "CorpNet", .array [Json.string "10.0.0.0/8"]),
        (some "corpnet", .array [Json.string "192.168.1.7"])] :=
    .cons ⟨_, rfl, .cons ⟨_, rfl, by rfl⟩ .nil⟩ (.cons ⟨_, rfl, .cons ⟨_, rfl, by rfl⟩ .nil⟩ .nil)
  have hlists : Lists text entries := lists_render hmembers (by decide +kernel)
  obtain ⟨t, ht⟩ := (parse_by_lists text).1.mpr ⟨entries, hlists⟩
  obtain ⟨hfound, -, -, hkept⟩ := (parse_by_lists text).2 t entries ht hlists
  refine ⟨t, ht, hlists, (hfound "CORPNET").mpr ⟨_, List.mem_cons_self, by decide +kernel⟩,
    hkept (by decide +kernel)⟩

/-- The very same name twice: only the second list is found. -/
theorem not_keepsAll_repeated :
    let text := "\x7b\"a\":[\"10.0.0.0/8\"],\"a\":[\"11.0.0.0/8\"]\x7d"
    let first := Network.ofV4 0x0A000000 8 (by decide)
    let second := Network.ofV4 0x0B000000 8 (by decide)
    let entries := [("a", [first]), ("a", [second])]
    ∃ t, parse text = .ok t ∧ Lists text entries ∧
      (∀ network, network ∈ (t.find? "a").getD [] ↔ network = second) ∧ ¬t.KeepsAll entries := by
  intro text first second entries
  have hmembers : List.Forall₂ IsMember entries
      [(some "a", .array [Json.string "10.0.0.0/8"]),
        (some "a", .array [Json.string "11.0.0.0/8"])] :=
    .cons ⟨_, rfl, .cons ⟨_, rfl, by rfl⟩ .nil⟩ (.cons ⟨_, rfl, .cons ⟨_, rfl, by rfl⟩ .nil⟩ .nil)
  have hlists : Lists text entries := lists_render hmembers (by decide +kernel)
  have ht := parse_eq_ok_iff.mpr ⟨entries, hlists, rfl⟩
  have hlast : ∀ last, Last entries last ↔ last = ("a", [second]) := by
    intro last
    have hnil : ¬Last [] last := fun h => List.not_mem_nil h.mem
    have hfirst : ¬(last = ("a", [first]) ∧ ∀ later ∈ [("a", [second])], later.1 ≠ last.1) :=
      fun ⟨hlast, hlater⟩ => hlater _ List.mem_cons_self (by rw [hlast])
    rw [last_cons_iff, or_iff_left hfirst, last_cons_iff, or_iff_right hnil]
    exact and_iff_left (List.forall_mem_nil _)
  have hfound := fun network => mem_find?_iff ht hlists "a" network
  simp only [hlast, exists_eq_left, (Text.sameName_iff "a" "a").mpr rfl, true_and,
    List.mem_singleton] at hfound
  have hne : first ≠ second := fun heq => by
    have hcontains := congrArg (·.contains (.v4 0x0A000000)) heq
    exact absurd hcontains (by decide +kernel)
  refine ⟨_, ht, hlists, hfound, fun hkeeps => ?_⟩
  exact hne ((hfound first).mp (hkeeps _ List.mem_cons_self _ List.mem_cons_self))

end NetworkTable
end FeatureGates
