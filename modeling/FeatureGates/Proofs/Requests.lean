import FeatureGates.Proofs.FirstSpellings
import FeatureGates.Proofs.ForwardedEntries

/-!
Requests and the parts they are built from.

A request is built part by part, and repetitions among its campaigns are cleared with each part.
It is shown what is in the request when all parts are in: a text is what was last given, trimmed,
and a list is what would be read from all values of its kind joined to one.
-/

namespace FeatureGates

/-- The fields of a request that hold one text each. -/
inductive TextField where
  | customer
  | anonymous
  | market
  | environment
  | partner
  | platform
  deriving DecidableEq

def TextField.get? (r : Request) : TextField → Option String
  | customer => r.customer
  | anonymous => r.anonymous
  | market => r.market
  | environment => r.environment
  | partner => r.partner
  | platform => r.platform

namespace RequestPart

/-- The text that a part has for a field. -/
def text? : TextField → RequestPart → Option String
  | .customer, .customer value => some value
  | .anonymous, .anonymous value => some value
  | .market, .market value => some value
  | .environment, .environment value => some value
  | .partner, .partner value => some value
  | .platform, .platform value => some value
  | _, _ => none

def campaigns? : RequestPart → Option String
  | campaigns value => some value
  | _ => none

def forwardedFor? : RequestPart → Option String
  | forwardedFor value => some value
  | _ => none

def remote? : RequestPart → Option Address
  | remote address => some address
  | _ => none

end RequestPart

namespace Request

variable (parts : List RequestPart)

/-- The text that a field was given last. -/
def lastText? (field : TextField) : Option String := parts.reverse.findSome? (·.text? field)

def lastRemote? : Option Address := parts.reverse.findSome? (·.remote?)

/-- All query values that list campaigns, as one. -/
def joinedCampaigns : String := ",".intercalate (parts.filterMap (·.campaigns?))

/-- All header values that list forwarded addresses, as one. -/
def joinedForwarded : String := ",".intercalate (parts.filterMap (·.forwardedFor?))

/-- What holds of every request that is built from parts. -/
structure Tidy (r : Request) : Prop where
  campaigns : ∀ campaign ∈ r.campaigns, Text.CleanEntry campaign
  forwardedFor : ∀ entry ∈ r.forwardedFor, Text.CleanEntry entry
  distinct : r.campaigns.Pairwise fun a b => Text.fold a ≠ Text.fold b

/-! ## One part -/

theorem get?_add (r : Request) (part : RequestPart) (field : TextField) :
    field.get? (r.add part) = match part.text? field with
      | some value => Text.nonBlank? value
      | none => field.get? r := by
  cases field <;> cases part <;> rfl

theorem campaigns_add (r : Request) (part : RequestPart) :
    (r.add part).campaigns = match part.campaigns? with
      | some value => Text.distinct (r.campaigns ++ Text.pieces value)
      | none => r.campaigns := by
  cases part <;> rfl

theorem forwardedFor_add (r : Request) (part : RequestPart) :
    (r.add part).forwardedFor =
      r.forwardedFor ++ part.forwardedFor?.toList.flatMap Text.pieces := by
  cases part <;> simp [add, RequestPart.forwardedFor?]

theorem remote_add (r : Request) (part : RequestPart) :
    (r.add part).remote = part.remote?.or r.remote := by
  cases part <;> rfl

theorem Tidy.add {r : Request} (hr : r.Tidy) (part : RequestPart) : (r.add part).Tidy where
  campaigns campaign hcampaign := by
    rw [campaigns_add] at hcampaign
    split at hcampaign
    · have hmem := (Text.distinctFrom_sublist _ _).subset hcampaign
      rcases List.mem_append.mp hmem with hold | hnew
      · exact hr.campaigns campaign hold
      · exact (Text.mem_pieces_iff.mp hnew).clean
    · exact hr.campaigns campaign hcampaign
  forwardedFor entry hentry := by
    rw [forwardedFor_add] at hentry
    rcases List.mem_append.mp hentry with hold | hnew
    · exact hr.forwardedFor entry hold
    · obtain ⟨value, -, hvalue⟩ := List.mem_flatMap.mp hnew
      exact (Text.mem_pieces_iff.mp hvalue).clean
  distinct := by
    rw [campaigns_add]
    split
    · exact Text.pairwise_distinctFrom _ _
    · exact hr.distinct

/-! ## All parts -/

theorem ofParts_concat (part : RequestPart) :
    ofParts (parts ++ [part]) = (ofParts parts).add part := by
  rw [ofParts, List.foldl_append]
  rfl

theorem tidy_ofParts : (ofParts parts).Tidy := by
  induction parts using List.reverseRecOn with
  | nil => exact ⟨nofun, nofun, List.Pairwise.nil⟩
  | append_singleton before part ih =>
    rw [ofParts_concat]
    exact ih.add part

theorem get?_ofParts (field : TextField) :
    field.get? (ofParts parts) = (lastText? parts field).bind Text.nonBlank? := by
  induction parts using List.reverseRecOn with
  | nil => cases field <;> rfl
  | append_singleton before part ih =>
    rw [ofParts_concat, get?_add, ih, lastText?, lastText?, List.reverse_concat,
      List.findSome?_cons]
    cases part.text? field <;> rfl

theorem remote_ofParts : (ofParts parts).remote = lastRemote? parts := by
  induction parts using List.reverseRecOn with
  | nil => rfl
  | append_singleton before part ih =>
    rw [ofParts_concat, remote_add, ih, lastRemote?, lastRemote?, List.reverse_concat,
      List.findSome?_cons]
    cases part.remote? <;> rfl

theorem campaigns_ofParts :
    (ofParts parts).campaigns = Text.distinct (Text.pieces (joinedCampaigns parts)) := by
  rw [joinedCampaigns, Text.pieces_intercalate]
  induction parts using List.reverseRecOn with
  | nil => rfl
  | append_singleton before part ih =>
    rw [ofParts_concat, campaigns_add, ih, List.filterMap_append, List.flatMap_append]
    cases hpart : part.campaigns? with
    | none => simp [hpart]
    | some value =>
      show Text.distinct (Text.distinct _ ++ Text.pieces value) = _
      rw [Text.distinct_distinct_append]
      simp [hpart]

theorem forwardedFor_ofParts :
    (ofParts parts).forwardedFor = Text.pieces (joinedForwarded parts) := by
  rw [joinedForwarded, Text.pieces_intercalate]
  induction parts using List.reverseRecOn with
  | nil => rfl
  | append_singleton before part ih =>
    rw [ofParts_concat, forwardedFor_add, ih, List.filterMap_append, List.flatMap_append]
    cases hpart : part.forwardedFor? <;> simp [hpart]

/-! ## The client -/

theorem answer_client_ofParts : ((ofParts parts).client true).answer =
    ((ofParts parts).forwardedFor.findSome? forwardedAddress?).or (lastRemote? parts) := by
  rw [client, if_pos rfl, Noted.answer_map, answer_firstForwarded, remote_ofParts]

theorem client_ofParts_eq_some_iff {a : Address} : ((ofParts parts).client true).answer = some a ↔
    FirstTaken a (ofParts parts).forwardedFor ∨
      (∀ entry ∈ (ofParts parts).forwardedFor, ∀ b, ¬Taken b entry) ∧
        lastRemote? parts = some a := by
  rw [answer_client_ofParts, Option.or_eq_some_iff, findSome?_eq_some_iff_firstTaken,
    findSome?_eq_none_iff_taken]

/-! ## Values that are split in two -/

theorem add_campaigns_add (r : Request) (a b : String) :
    (r.add (.campaigns a)).add (.campaigns b) = r.add (.campaigns (a ++ "," ++ b)) := by
  have hlists : Text.distinct (Text.distinct (r.campaigns ++ Text.pieces a) ++ Text.pieces b) =
      Text.distinct (r.campaigns ++ Text.pieces (a ++ "," ++ b)) := by
    rw [Text.distinct_distinct_append, Text.pieces_append, List.append_assoc]
  exact congrArg (fun campaigns => { r with campaigns }) hlists

theorem add_forwardedFor_add (r : Request) (a b : String) :
    (r.add (.forwardedFor a)).add (.forwardedFor b) = r.add (.forwardedFor (a ++ "," ++ b)) := by
  have hlists : r.forwardedFor ++ Text.pieces a ++ Text.pieces b =
      r.forwardedFor ++ Text.pieces (a ++ "," ++ b) := by
    rw [Text.pieces_append, List.append_assoc]
  exact congrArg (fun forwardedFor => { r with forwardedFor }) hlists

/-- What a request holds, of all that it was built from.  A text is what its field was given last,
trimmed, unless that is blank.  The campaigns are the first spellings among all entries of all
values, and the forwarded addresses are all entries, in their order; none is empty or has a comma in
it.  The client is the first of the forwarded entries that can be read, or else the other end of the
connection.  A value that is split at a comma and given in two parts comes to the same at any
time. -/
theorem ofParts_holds (parts : List RequestPart) :
    (∀ field text, field.get? (ofParts parts) = some text ↔
      ∃ value, lastText? parts field = some value ∧ text ≠ "" ∧
        Text.TrimsTo value.toList text.toList) ∧
    (ofParts parts).Tidy ∧
    (∃ entries, Text.HasEntries (joinedCampaigns parts) entries ∧
      Text.FirstSpellings entries (ofParts parts).campaigns) ∧
    Text.HasEntries (joinedForwarded parts) (ofParts parts).forwardedFor ∧
    ((ofParts parts).client true).answer =
      ((ofParts parts).forwardedFor.findSome? forwardedAddress?).or (lastRemote? parts) ∧
    (∀ a, ((ofParts parts).client true).answer = some a ↔
      FirstTaken a (ofParts parts).forwardedFor ∨
        (∀ entry ∈ (ofParts parts).forwardedFor, ∀ b, ¬Taken b entry) ∧
          lastRemote? parts = some a) ∧
    ∀ (r : Request) (a b : String),
      (r.add (.campaigns a)).add (.campaigns b) = r.add (.campaigns (a ++ "," ++ b)) ∧
      (∃ entries, Text.HasEntries (a ++ "," ++ b) entries ∧
        Text.FirstSpellings (r.campaigns ++ entries)
          (r.add (.campaigns (a ++ "," ++ b))).campaigns) ∧
      (r.add (.forwardedFor a)).add (.forwardedFor b) =
        r.add (.forwardedFor (a ++ "," ++ b)) := by
  refine ⟨fun field text => ?_, tidy_ofParts parts, ⟨_, Text.hasEntries_iff.mpr rfl, ?_⟩,
    Text.hasEntries_iff.mpr (forwardedFor_ofParts parts).symm, answer_client_ofParts parts,
    fun a => client_ofParts_eq_some_iff parts,
    fun r a b => ⟨add_campaigns_add r a b,
      ⟨_, Text.hasEntries_iff.mpr rfl, Text.firstSpellings_distinct _⟩,
      add_forwardedFor_add r a b⟩⟩
  · rw [get?_ofParts, Option.bind_eq_some_iff]
    simp only [Text.nonBlank?_eq_some_iff]
  · rw [campaigns_ofParts]
    exact Text.firstSpellings_distinct _

theorem ofParts_holds_visit :
    let parts : List RequestPart := [
      .customer "ann", .campaigns " Spring,, sale", .market " uk ", .forwardedFor "unknown ,",
      .remote (.v4 0x0A000001), .campaigns "SALE,late , spring", .customer "  bob ", .market " ",
      .forwardedFor " 203.0.113.9:80, ::1"]
    let r := ofParts parts
    r.customer = some "bob" ∧ r.market = none ∧
      Text.FirstSpellings ["Spring", "sale", "SALE", "late", "spring"] r.campaigns ∧
      r.campaigns = ["Spring", "sale", "late"] ∧
      Text.HasEntries "unknown ,, 203.0.113.9:80, ::1" r.forwardedFor ∧
      r.forwardedFor = ["unknown", "203.0.113.9:80", "::1"] ∧
      FirstTaken (.v4 0xCB007109) r.forwardedFor ∧
      (r.client true).answer = some (.v4 0xCB007109) ∧
      (r.add (.campaigns "x")).add (.campaigns "LATE, y") = r.add (.campaigns "x,LATE, y") := by
  intro parts r
  obtain ⟨htext, -, ⟨entries, hentries, hfirst⟩, hforwarded, hclient, htaken, hsplit⟩ :=
    ofParts_holds parts
  have hall : entries = ["Spring", "sale", "SALE", "late", "spring"] :=
    (Text.hasEntries_iff.mp hentries).symm.trans (by decide +kernel)
  have hlist : r.forwardedFor = ["unknown", "203.0.113.9:80", "::1"] :=
    (Text.hasEntries_iff.mp hforwarded).symm.trans (by decide +kernel)
  have hanswer : (r.client true).answer = some (.v4 0xCB007109) := by
    rw [hclient, hlist]
    decide +kernel
  have hcustomer : r.customer = some "bob" := by
    refine (htext .customer "bob").mpr ⟨"  bob ", rfl, by decide, ?_⟩
    exact Text.trimmed_eq_iff.mp (by decide +kernel)
  have hmarket : r.market = none := by
    refine Option.eq_none_iff_forall_ne_some.mpr fun text hsome => ?_
    obtain ⟨value, hvalue, hne, htrim⟩ := (htext .market text).mp hsome
    cases hvalue
    have hblank := Text.trimmed_of_trimsTo htrim
    exact hne (String.toList_eq_nil_iff.mp hblank.symm)
  refine ⟨hcustomer, hmarket, hall ▸ hfirst, by decide +kernel, hforwarded, hlist, ?_, hanswer,
    (hsplit r "x" "LATE, y").1⟩
  -- The other end of the connection has another address.
  rcases (htaken _).mp hanswer with hmet | ⟨-, hremote⟩
  · exact hmet
  · exact absurd hremote (by decide)

end Request
end FeatureGates
