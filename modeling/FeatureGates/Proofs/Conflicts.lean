import FeatureGates.Hierarchy.Load
import Mathlib.Data.Option.Basic

/-!
Fields that are there twice.

A field may have two spellings, but an object may use only one of them.  Wherever in a document a
gate or a filter stands, in a record written as an object or as an array, an object that uses both
makes the whole document unreadable.
-/

namespace FeatureGates

theorem exists_of_mem_of_mapM {α β : Type} {f : α → Option β} {l : List α} {images : List β}
    (h : l.mapM f = some images) {a : α} (ha : a ∈ l) : ∃ b ∈ images, f a = some b := by
  induction l generalizing images with
  | nil => cases ha
  | cons first rest ih =>
    simp only [List.mapM_cons, Option.bind_eq_bind, Option.bind_eq_some_iff, Option.pure_def,
      Option.some.injEq] at h
    obtain ⟨b, hb, others, hothers, rfl⟩ := h
    rcases List.mem_cons.mp ha with rfl | ha
    · exact ⟨b, List.mem_cons_self, hb⟩
    · obtain ⟨b', hb', himage⟩ := ih hothers ha
      exact ⟨b', List.mem_cons_of_mem _ hb', himage⟩

namespace Json

/-- The value stands in a record, in the place of the field with this position and these
spellings. -/
inductive Holds (position : Nat) (spellings : List String) : Json → Json → Prop
  | named {members : List (Option String × Json)} {key : String} {value : Json}
    (hmember : (some key, value) ∈ members) (hkey : key ∈ spellings) :
    Holds position spellings (.object members) value
  | listed {items : List Json} {value : Json} (h : items[position]? = some value) :
    Holds position spellings (.array items) value

/-- An object has members under both keys. -/
def HasBoth (key other : String) (j : Json) : Prop :=
  ∃ members value value', j = .object members ∧ (some key, value) ∈ members ∧
    (some other, value') ∈ members

theorem mem_of_record? {members : List (Option String × Json)} {r : Record}
    (h : (Json.object members).record? = some r) : ∃ fields, r = .named fields ∧
      ∀ key value, (some key, value) ∈ members → (key, value) ∈ fields := by
  simp only [record?, Option.map_eq_some_iff] at h
  obtain ⟨fields, hfields, rfl⟩ := h
  refine ⟨fields, rfl, fun key value hmember => ?_⟩
  obtain ⟨field, hfield, heq⟩ := exists_of_mem_of_mapM hfields hmember
  obtain rfl : (key, value) = field := Option.some.inj heq
  exact hfield

namespace Record

variable {α : Type} {r : Record} {position : Nat} {spellings : List String} {missing a : α}
  {read : Json → Option α}

/-- In an object whose field can be told there is no second member for it. -/
theorem filter_eq_singleton {fields : List (String × Json)} {found : Option Json}
    (h : (Record.named fields).field? position spellings = some found) {member : String × Json}
    (hmember : member ∈ fields) (hkey : member.1 ∈ spellings) :
    fields.filter (spellings.contains ·.1) = [member] := by
  have hfilter : member ∈ fields.filter (spellings.contains ·.1) :=
    List.mem_filter.mpr ⟨hmember, List.contains_iff_mem.mpr hkey⟩
  rw [field?] at h
  split at h
  case h_1 hnil =>
    rw [hnil] at hfilter
    cases hfilter
  case h_2 hsingle =>
    rw [hsingle, List.mem_singleton] at hfilter
    rw [hsingle, hfilter]
  case h_3 => cases h

/-- A field that stands in the record is found. -/
theorem field?_of_holds {j value : Json} {found : Option Json} (hr : j.record? = some r)
    (h : r.field? position spellings = some found) (hvalue : Holds position spellings j value) :
    found = some value := by
  cases hvalue with
  | @named members key value hmember hkey =>
    obtain ⟨fields, rfl, hfields⟩ := mem_of_record? hr
    have hfilter := filter_eq_singleton h (hfields key value hmember) hkey
    rw [field?, hfilter] at h
    exact (Option.some.inj h).symm
  | listed hitem =>
    obtain rfl := Option.some.inj hr
    rw [field?, hitem] at h
    exact (Option.some.inj h).symm

theorem read_of_holds {j value : Json} (hr : j.record? = some r)
    (h : r.optional? position spellings missing read = some a)
    (hvalue : Holds position spellings j value) : read value = some a := by
  simp only [optional?, Option.bind_eq_bind, Option.bind_eq_some_iff] at h
  obtain ⟨found, hfound, hread⟩ := h
  rw [field?_of_holds hr hfound hvalue] at hread
  exact hread

/-- No field can be told that has members under two spellings. -/
theorem field?_of_hasBoth {j : Json} (hr : j.record? = some r) {key other : String}
    (hboth : j.HasBoth key other) (hne : key ≠ other) (hkey : key ∈ spellings)
    (hother : other ∈ spellings) : r.field? position spellings = none := by
  obtain ⟨members, value, value', rfl, hmember, hmember'⟩ := hboth
  obtain ⟨fields, rfl, hfields⟩ := mem_of_record? hr
  cases hfound : (Record.named fields).field? position spellings with
  | none => rfl
  | some found =>
    have hfilter := filter_eq_singleton hfound (hfields key value hmember) hkey
    -- The members under both keys would be one and the same.
    have hfilter' := filter_eq_singleton hfound (hfields other value' hmember') hother
    rw [hfilter, List.cons.injEq, Prod.mk.injEq] at hfilter'
    exact absurd hfilter'.1.1 hne

end Record
end Json

open Json (Holds HasBoth Record)

/-! ## Places in a document -/

/-- The places of gates in the JSON of a document. -/
inductive GateIn (document : Json) : Json → Prop
  | top {members : List (Option String × Json)} {name : Option String} {gate : Json}
    (hgates : Holds 0 ["gates"] document (.object members)) (hmember : (name, gate) ∈ members) :
    GateIn document gate
  | inside {container gate : Json} {members : List (Option String × Json)} {name : Option String}
    (hcontainer : GateIn document container)
    (hchildren : Holds 2 ["children"] container (.object members))
    (hmember : (name, gate) ∈ members) : GateIn document gate

/-- The places of filters. -/
inductive FilterIn (document : Json) : Json → Prop
  | mk {gate filter : Json} {items : List Json} (hgate : GateIn document gate)
    (hfilters : Holds 1 ["filters"] gate (.array items)) (hitem : filter ∈ items) :
    FilterIn document filter

/-- Somewhere a gate names its group twice, or a parent filter its gate. -/
inductive Conflicting (document : Json) : Prop
  | group {gate : Json} (h : GateIn document gate) (hboth : gate.HasBoth "group" "groupName")
  | parent {filter : Json} (h : FilterIn document filter)
    (hkind : ∃ members, filter = .object members ∧ (some "kind", Json.string "parent") ∈ members)
    (hboth : filter.HasBoth "gate" "parent")

namespace Definition

variable {room : Nat}

theorem ofJson?_of_siblings? {members : List (Option String × Json)}
    {siblings : List (String × Definition)}
    (h : siblings? room (.object members) = some siblings) {name : Option String} {gate : Json}
    (hmember : (name, gate) ∈ members) : ∃ below d, ofJson? below gate = some d := by
  cases room with
  | zero => cases h
  | succ room =>
    rw [siblings?] at h
    obtain ⟨entry, -, hentry⟩ := exists_of_mem_of_mapM h hmember
    simp only [Option.bind_eq_bind, Option.bind_eq_some_iff] at hentry
    obtain ⟨-, -, d, hd, -⟩ := hentry
    exact ⟨room, d, hd⟩

/-- What reading a gate reads of it. -/
theorem ofJson?_eq_some {j : Json} {d : Definition} (h : ofJson? room j = some d) :
    ∃ below r, j.record? = some r ∧
      (∃ group, r.optional? 0 ["group", "groupName"] none Json.nullOrText? = some group) ∧
      (∃ filters, r.optional? 1 ["filters"] [] (filters? below) = some filters) ∧
      ∃ children, r.optional? 2 ["children"] [] (siblings? below) = some children := by
  cases room with
  | zero => cases h
  | succ room =>
    simp only [ofJson?, Option.bind_eq_bind, Option.bind_eq_some_iff] at h
    obtain ⟨r, hr, -, -, group, hgroup, filters, hfilters, children, hchildren, -⟩ := h
    exact ⟨room, r, hr, ⟨group, hgroup⟩, ⟨filters, hfilters⟩, ⟨children, hchildren⟩⟩

end Definition

variable {document : Json} {d : Document}

theorem GateIn.ofJson? {gate : Json} (h : GateIn document gate)
    (hd : Document.ofJson? document = some d) :
    ∃ room definition, Definition.ofJson? room gate = some definition := by
  induction h with
  | top hgates hmember =>
    simp only [Document.ofJson?, Option.bind_eq_bind, Option.bind_eq_some_iff] at hd
    obtain ⟨r, hr, -, -, gates, hread, -⟩ := hd
    exact Definition.ofJson?_of_siblings? (Record.read_of_holds hr hread hgates) hmember
  | inside hcontainer hchildren hmember ih =>
    obtain ⟨room, definition, hdefinition⟩ := ih
    obtain ⟨below, r, hr, -, -, children, hread⟩ := Definition.ofJson?_eq_some hdefinition
    exact Definition.ofJson?_of_siblings? (Record.read_of_holds hr hread hchildren) hmember

theorem FilterIn.ofJson? {filter : Json} (h : FilterIn document filter)
    (hd : Document.ofJson? document = some d) : ∃ room f, Filter.ofJson? room filter = some f := by
  obtain ⟨hgate, hfilters, hitem⟩ := h
  obtain ⟨room, definition, hdefinition⟩ := hgate.ofJson? hd
  obtain ⟨below, r, hr, -, ⟨filters, hread⟩, -⟩ := Definition.ofJson?_eq_some hdefinition
  have hitems := Record.read_of_holds hr hread hfilters
  cases below with
  | zero => cases hitems
  | succ below =>
    obtain ⟨f, -, hf⟩ := exists_of_mem_of_mapM hitems hitem
    exact ⟨below, f, hf⟩

/-- A parent filter that is read has one target. -/
theorem Filter.ofJson?_hasBoth {members : List (Option String × Json)}
    (hkind : (some "kind", Json.string "parent") ∈ members)
    (hboth : (Json.object members).HasBoth "gate" "parent") (room : Nat) :
    Filter.ofJson? room (.object members) = none := by
  cases hr : (Json.object members).record? with
  | none => simp [Filter.ofJson?, hr]
  | some r =>
    obtain ⟨fields, rfl, -⟩ := Json.mem_of_record? hr
    have htarget : (Record.named fields).field? 0 ["gate", "parent"] = none :=
      Record.field?_of_hasBoth hr hboth (by decide) (by simp) (by simp)
    have hparent : Filter.ofSettings? "parent" (.named fields) = none := by
      simp [Filter.ofSettings?, Record.required?, htarget]
    have hnone : Filter.ofRecord? (.named fields) = none := by
      rw [Filter.ofRecord?, Record.required?]
      cases hfound : (Record.named fields).field? 0 ["kind"] with
      | none => rfl
      | some found =>
        obtain rfl := Record.field?_of_holds hr hfound (.named hkind List.mem_cons_self)
        exact hparent
    simp [Filter.ofJson?, hr, hnone]

theorem Conflicting.ofJson? (h : Conflicting document) : Document.ofJson? document = none := by
  cases hd : Document.ofJson? document with
  | none => rfl
  | some d =>
    cases h with
    | group hgate hboth =>
      obtain ⟨room, definition, hdefinition⟩ := hgate.ofJson? hd
      obtain ⟨-, r, hr, ⟨group, hgroup⟩, -⟩ := Definition.ofJson?_eq_some hdefinition
      rw [Record.optional?, Record.field?_of_hasBoth hr hboth (by decide) (by simp) (by simp)]
        at hgroup
      cases hgroup
    | parent hfilter hkind hboth =>
      obtain ⟨room, f, hf⟩ := hfilter.ofJson? hd
      obtain ⟨members, rfl, hmember⟩ := hkind
      rw [Filter.ofJson?_hasBoth hmember hboth room] at hf
      cases hf

end FeatureGates
