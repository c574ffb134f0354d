import FeatureGates.Document.Reader
import FeatureGates.Proofs.Layout
import FeatureGates.Proofs.Reading
import Mathlib.Data.Option.Basic

/-!
The format of gate documents.

A document can be written in many ways: fields may change places, take another spelling, be left
out when they have their default, and stand beside others that nobody knows.  All of these ways are
read as the same document, with its siblings in their order and with every repetition of a name.
-/

namespace FeatureGates

namespace Json

/-- An array of texts. -/
def texts (l : List String) : Json := .array (l.map string)

theorem texts?_texts (l : List String) : (texts l).texts? = some l := by
  show (l.map string).mapM text? = some l
  induction l with
  | nil => rfl
  | cons s rest ih => simp [string, text?, ih]

theorem natural?_nat {n bound : Nat} (h : n < bound) : (nat n).natural? bound = some n := by
  simp [nat, natural?, Numeral.natural?_ofNat, h]

theorem readable_texts (l : List String) {room : Nat} (h : (texts l).depth ≤ room) :
    (texts l).readable room = true := by
  cases room with
  | zero => cases h
  | succ room =>
    show (l.map string).all (readable room) = true
    rw [List.all_eq_true]
    intro j hj
    obtain ⟨s, -, rfl⟩ := List.mem_map.mp hj
    simp [string, readable]

end Json

open Json (Field ObjectOf)

/-! ## Filters -/

namespace Filter

def Kind.name : Kind → String
  | campaign => "campaign"
  | environment => "environment"
  | ipAddress => "ipAddress"
  | parent => "parent"
  | rollout => "rollout"

/-- The spellings of the fields besides `kind`. -/
def Kind.spellings : Kind → List String
  | campaign => ["enabled", "disabled"]
  | environment => ["environments"]
  | ipAddress => ["allowedRange"]
  | parent => ["gate", "parent"]
  | rollout => ["exposurePercentage"]

theorem Kind.kind_notMem_spellings (k : Kind) : "kind" ∉ k.spellings := by
  cases k <;> decide

/-- A list of environments; a single one may be written without the list. -/
inductive Environments : List String → Json → Prop
  | list (l : List String) : Environments l (Json.texts l)
  | single (s : String) : Environments [s] (Json.string s)

/-- The fields of a filter besides `kind`. -/
inductive Settings : Filter → List (String × Json) → Prop
  | campaign {enabled disabled : List String} {e d : List (String × Json)}
    (he : Field ["enabled"] (enabled = []) (· = Json.texts enabled) e)
    (hd : Field ["disabled"] (disabled = []) (· = Json.texts disabled) d) :
    Settings (condition (.campaign enabled disabled)) (e ++ d)
  | environment {environments : List String} {field : List (String × Json)}
    (h : Field ["environments"] (environments = []) (Environments environments) field) :
    Settings (condition (.environment environments)) field
  | ipAddress {allowedRange : String} {field : List (String × Json)}
    (h : Field ["allowedRange"] False (· = Json.string allowedRange) field) :
    Settings (condition (.ipAddress allowedRange)) field
  | parent {gate : String} {field : List (String × Json)}
    (h : Field ["gate", "parent"] False (· = Json.string gate) field) : Settings (parent gate) field
  | rollout {exposure : Nat} {field : List (String × Json)} (hexposure : exposure < UInt32.size)
    (h : Field ["exposurePercentage"] False (· = Json.nat exposure) field) :
    Settings (condition (.rollout exposure)) field

/-- The objects that stand for a filter. -/
def WrittenAs (f : Filter) (j : Json) : Prop :=
  ∃ settings, Settings f settings ∧
    ObjectOf ("kind" :: f.kind.spellings) (("kind", Json.string f.kind.name) :: settings) j

namespace Settings

variable {f : Filter} {settings : List (String × Json)}

theorem spelled (h : Settings f settings) : ∀ member ∈ settings, member.1 ∈ f.kind.spellings := by
  intro member hmember
  cases h with
  | campaign he hd =>
    rcases List.mem_append.mp hmember with hmember | hmember
    · exact List.mem_append_left ["disabled"] (he.of_mem hmember).1
    · exact List.mem_append_right ["enabled"] (hd.of_mem hmember).1
  | environment h | ipAddress h | parent h | rollout _ h => exact (h.of_mem hmember).1

/-- The settings are read in any object that has these fields and no other of their spellings. -/
theorem ofSettings? (h : Settings f settings) {members : List (String × Json)}
    (hmembers : ∀ spellings : List String, (∀ s ∈ spellings, s ∈ f.kind.spellings) →
      (members.filter (spellings.contains ·.1)).Perm (settings.filter (spellings.contains ·.1))) :
    Filter.ofSettings? f.kind.name (.named members) = some f := by
  cases h with
  | @campaign enabled disabled e d he hd =>
    have hallE := hmembers ["enabled"] (by simp [kind, Condition.kind, Kind.spellings])
    have hallD := hmembers ["disabled"] (by simp [kind, Condition.kind, Kind.spellings])
    rw [List.filter_append, he.filter_self, hd.filter_other (by simp), List.append_nil] at hallE
    rw [List.filter_append, he.filter_other (by simp), hd.filter_self, List.nil_append] at hallD
    have henabled := he.optional? 0 [] Json.texts? hallE Eq.symm
      fun _ _ _ hj => hj ▸ Json.texts?_texts enabled
    have hdisabled := hd.optional? 1 [] Json.texts? hallD Eq.symm
      fun _ _ _ hj => hj ▸ Json.texts?_texts disabled
    simp [Filter.ofSettings?, kind, Condition.kind, Kind.name, Json.Record.fits, henabled,
      hdisabled]
  | @environment environments _ h =>
    have hall := hmembers ["environments"] (by simp [kind, Condition.kind, Kind.spellings])
    rw [h.filter_self] at hall
    have hread : ∀ key j, (key, j) ∈ settings → Environments environments j →
        textOrTexts? j = some environments := by
      intro key j _ hj
      cases hj with
      | list => exact Json.texts?_texts environments
      | single s => rfl
    have henvironments := h.optional? 0 [] textOrTexts? hall Eq.symm hread
    simp [Filter.ofSettings?, kind, Condition.kind, Kind.name, Json.Record.fits, henvironments]
  | @ipAddress allowedRange _ h =>
    have hall := hmembers ["allowedRange"] (by simp [kind, Condition.kind, Kind.spellings])
    rw [h.filter_self] at hall
    have hrange := h.required? 0 Json.text? allowedRange hall fun _ _ _ hj => hj ▸ rfl
    simp [Filter.ofSettings?, kind, Condition.kind, Kind.name, Json.Record.fits, hrange]
  | @parent gate _ h =>
    have hall := hmembers ["gate", "parent"] (by simp [kind, Kind.spellings])
    rw [h.filter_self] at hall
    have hgate := h.required? 0 Json.text? gate hall fun _ _ _ hj => hj ▸ rfl
    simp [Filter.ofSettings?, kind, Kind.name, Json.Record.fits, hgate]
  | @rollout exposure _ hexposure h =>
    have hall := hmembers ["exposurePercentage"] (by simp [kind, Condition.kind, Kind.spellings])
    rw [h.filter_self] at hall
    have hread := h.required? 0 (Json.natural? exposureBound) exposure hall
      fun _ _ _ hj => hj ▸ Json.natural?_nat hexposure
    simp [Filter.ofSettings?, kind, Condition.kind, Kind.name, Json.Record.fits, hread]

theorem readable (h : Settings f settings) {room : Nat}
    (hroom : ∀ member ∈ settings, member.2.depth ≤ room) :
    ∀ member ∈ settings, member.2.readable room = true := by
  intro ⟨key, j⟩ hmember
  have hdepth := hroom _ hmember
  have hstring : ∀ s : String, (Json.string s).readable room = true := by
    intro s
    simp [Json.string, Json.readable]
  cases h with
  | campaign he hd =>
    rcases List.mem_append.mp hmember with hmember | hmember
    · obtain rfl := (he.of_mem hmember).2
      exact Json.readable_texts _ hdepth
    · obtain rfl := (hd.of_mem hmember).2
      exact Json.readable_texts _ hdepth
  | environment h =>
    cases (h.of_mem hmember).2 with
    | list => exact Json.readable_texts _ hdepth
    | single s => exact hstring s
  | ipAddress h | parent h =>
    obtain rfl := (h.of_mem hmember).2
    exact hstring _
  | rollout hexposure h =>
    -- Beyond 53 bits a number might be rounded up and out of the range of a double.
    obtain rfl := (h.of_mem hmember).2
    simp [Json.nat, Json.readable, Numeral.exceedsDouble_ofNat (Nat.lt_trans hexposure (by decide))]

end Settings

theorem ofJson?_of_writtenAs {f : Filter} {j : Json} (h : f.WrittenAs j) {room : Nat}
    (hroom : j.depth ≤ room) : Filter.ofJson? room j = some f := by
  obtain ⟨settings, hsettings, hobject⟩ := h
  obtain ⟨room, rfl⟩ : ∃ below, room = below + 1 :=
    Nat.exists_eq_succ_of_ne_zero (Nat.ne_of_gt (Nat.lt_of_lt_of_le hobject.depth_pos hroom))
  have hreadable : j.readable (room + 1) = true := by
    refine hobject.readable fun member hmember => ?_
    rcases List.mem_cons.mp hmember with rfl | hmember
    · simp [Json.string, Json.readable]
    · refine hsettings.readable (fun member hmember => ?_) member hmember
      have hlt := hobject.depth_lt (List.mem_cons_of_mem _ hmember)
      exact Nat.le_of_lt_succ (Nat.lt_of_lt_of_le hlt hroom)
  obtain ⟨all, hrecord, hfilter⟩ := hobject.record?
  have hkind : Field ["kind"] False (· = Json.string f.kind.name)
      [("kind", Json.string f.kind.name)] := .written "kind" List.mem_cons_self rfl
  have hkindAll : (all.filter (["kind"].contains ·.1)).Perm [("kind", Json.string f.kind.name)] := by
    have hnone : settings.filter (["kind"].contains ·.1) = [] := by
      refine List.filter_eq_nil_iff.mpr fun member hmember hkey => ?_
      rw [List.contains_iff_mem, List.mem_singleton] at hkey
      exact f.kind.kind_notMem_spellings (hkey ▸ hsettings.spelled member hmember)
    have hall := hfilter ["kind"] (by simp)
    rwa [List.filter_cons_of_pos (by simp), hnone] at hall
  have hsettingsAll : ∀ spellings : List String, (∀ s ∈ spellings, s ∈ f.kind.spellings) →
      (all.filter (spellings.contains ·.1)).Perm (settings.filter (spellings.contains ·.1)) := by
    intro spellings hspellings
    have hother : ¬spellings.contains "kind" = true := by
      rw [List.contains_iff_mem]
      exact fun hmem => f.kind.kind_notMem_spellings (hspellings _ hmem)
    have hall := hfilter spellings fun s hs => List.mem_cons_of_mem _ (hspellings s hs)
    rwa [List.filter_cons, if_neg hother] at hall
  have hname := hkind.required? 0 Json.text? f.kind.name hkindAll fun _ _ _ hj => hj ▸ rfl
  rw [Filter.ofJson?, if_pos hreadable, hrecord]
  show Filter.ofRecord? (.named all) = some f
  simp [Filter.ofRecord?, hname, hsettings.ofSettings? hsettingsAll]

end Filter

/-! ## Gates -/

/-- A group, or `null` for none. -/
inductive Definition.Group : Option String → Json → Prop
  | none : Group none .null
  | some (s : String) : Group (some s) (Json.string s)

/-- An array of filters. -/
def Definition.Filters (filters : List Filter) (j : Json) : Prop :=
  ∃ items, j = .array items ∧ List.Forall₂ Filter.WrittenAs filters items

/-- The members that stand for siblings, in the same order. -/
inductive Siblings : List (String × Definition) → List (Option String × Json) → Prop
  | nil : Siblings [] []
  | cons {name : String} {group : Option String} {filters : List Filter}
    {children rest : List (String × Definition)} {g f c : List (String × Json)}
    {childMembers restMembers : List (Option String × Json)} {j : Json}
    (hg : Field ["group", "groupName"] (group = none) (Definition.Group group) g)
    (hf : Field ["filters"] (filters = []) (Definition.Filters filters) f)
    (hchildren : Siblings children childMembers)
    (hc : Field ["children"] (children = []) (· = .object childMembers) c)
    (hj : ObjectOf ["group", "groupName", "filters", "children"] (g ++ f ++ c) j)
    (hrest : Siblings rest restMembers) :
    Siblings ((name, ⟨group, filters, children⟩) :: rest) ((some name, j) :: restMembers)

/-- The objects that stand for a document. -/
def Document.WrittenAs (d : Document) (j : Json) : Prop :=
  ∃ members field, Siblings d.gates members ∧
    Field ["gates"] (d.gates = []) (· = .object members) field ∧ ObjectOf ["gates"] field j

theorem Definition.filters?_of_forall₂ {filters : List Filter} {items : List Json}
    (h : List.Forall₂ Filter.WrittenAs filters items) {room : Nat}
    (hroom : (Json.array items).depth ≤ room) :
    Definition.filters? room (.array items) = some filters := by
  cases room with
  | zero => cases hroom
  | succ room =>
    show items.mapM (Filter.ofJson? room) = some filters
    have hitems : ∀ item ∈ items, item.depth ≤ room := fun item hitem =>
      (Json.depth_le_itemsDepth hitem).trans (Nat.le_of_succ_le_succ hroom)
    clear hroom
    induction h with
    | nil => rfl
    | cons hfilter _ ih =>
      rw [List.forall_mem_cons] at hitems
      simp [Filter.ofJson?_of_writtenAs hfilter hitems.1, ih hitems.2]

theorem Definition.ofJson?_of_fields {group : Option String} {filters : List Filter}
    {children : List (String × Definition)} {g f c : List (String × Json)}
    {childMembers : List (Option String × Json)} {j : Json}
    (hg : Field ["group", "groupName"] (group = none) (Definition.Group group) g)
    (hf : Field ["filters"] (filters = []) (Definition.Filters filters) f)
    (hc : Field ["children"] (children = []) (· = .object childMembers) c)
    (hj : ObjectOf ["group", "groupName", "filters", "children"] (g ++ f ++ c) j) {room : Nat}
    (hroom : j.depth ≤ room + 1)
    (hchildren : (Json.object childMembers).depth ≤ room →
      Definition.siblings? room (.object childMembers) = some children) :
    Definition.ofJson? (room + 1) j = some ⟨group, filters, children⟩ := by
  obtain ⟨all, hrecord, hfilter⟩ := hj.record?
  have hallG := hfilter ["group", "groupName"] (by simp)
  have hallF := hfilter ["filters"] (by simp)
  have hallC := hfilter ["children"] (by simp)
  simp only [List.filter_append] at hallG hallF hallC
  rw [hg.filter_self, hf.filter_other (by decide), hc.filter_other (by decide)] at hallG
  rw [hg.filter_other (by decide), hf.filter_self, hc.filter_other (by decide)] at hallF
  rw [hg.filter_other (by decide), hf.filter_other (by decide), hc.filter_self] at hallC
  simp only [List.append_nil, List.nil_append] at hallG hallF hallC
  have hbelow : ∀ member ∈ g ++ f ++ c, member.2.depth ≤ room := fun member hmember =>
    Nat.le_of_lt_succ (Nat.lt_of_lt_of_le (hj.depth_lt hmember) hroom)
  have hgroup := hg.optional? 0 none Json.nullOrText? hallG Eq.symm
    fun _ _ _ hvalue => by cases hvalue <;> rfl
  have hfilters := hf.optional? 1 [] (Definition.filters? room) hallF Eq.symm
    fun key value hmember hvalue => by
      obtain ⟨items, rfl, hitems⟩ := hvalue
      have hdepth := hbelow (key, .array items) (by simp [hmember])
      exact Definition.filters?_of_forall₂ hitems hdepth
  have hchildren := hc.optional? 2 [] (Definition.siblings? room) hallC Eq.symm
    fun key value hmember hvalue => by
      subst hvalue
      exact hchildren (hbelow (key, .object childMembers) (by simp [hmember]))
  rw [Definition.ofJson?, hrecord]
  simp [Json.Record.fits, hgroup, hfilters, hchildren]

theorem Siblings.siblings? {siblings : List (String × Definition)}
    {members : List (Option String × Json)} (h : Siblings siblings members) {room : Nat}
    (hroom : (Json.object members).depth ≤ room) :
    Definition.siblings? room (.object members) = some siblings := by
  induction h generalizing room with
  | nil =>
    cases room with
    | zero => cases hroom
    | succ room => rw [Definition.siblings?, List.mapM_nil]; rfl
  | @cons name group filters children rest g f c childMembers restMembers j hg hf hchildren hc hj
      hrest ihchildren ihrest =>
    rw [Json.depth, Json.membersDepth] at hroom
    -- One container is the object of the siblings, the other the gate.
    obtain ⟨room, rfl⟩ : ∃ below, room = below + 2 :=
      ⟨room - 2, by have := hj.depth_pos; omega⟩
    have hgateRoom : j.depth ≤ room + 1 := by omega
    have hrestRoom : (Json.object restMembers).depth ≤ room + 2 := by
      rw [Json.depth]
      omega
    have hgate := Definition.ofJson?_of_fields hg hf hc hj hgateRoom ihchildren
    have hothers := ihrest hrestRoom
    rw [Definition.siblings?] at hothers ⊢
    rw [List.mapM_cons, hothers]
    simp [hgate]

theorem Document.ofJson?_of_writtenAs {d : Document} {j : Json} (h : d.WrittenAs j)
    (hdepth : j.depth ≤ Json.nestingLimit) : Document.ofJson? j = some d := by
  obtain ⟨members, field, hsiblings, hfield, hj⟩ := h
  obtain ⟨all, hrecord, hfilter⟩ := hj.record?
  have hall := hfilter ["gates"] (by simp)
  rw [hfield.filter_self] at hall
  have hgates := hfield.optional? 0 [] (Definition.siblings? (Json.nestingLimit - 1)) hall Eq.symm
    fun key value hmember hvalue => by
      subst hvalue
      have hlt := hj.depth_lt hmember
      exact hsiblings.siblings? (by omega)
  rw [Document.ofJson?, hrecord]
  simp [Json.Record.fits, hgates]

end FeatureGates
