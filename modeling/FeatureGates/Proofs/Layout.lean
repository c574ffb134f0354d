import FeatureGates.Json.Record
import Mathlib.Data.List.Perm.Basic

/-!
The layout of records in objects.

An object holds the fields of a record in any order and under any of their spellings, without those
that are left out, and among them whatever else it likes.  A record's reader finds each field all
the same.  How deep a value is nested says where there is room for it.
-/

namespace FeatureGates
namespace Json

/-! ## Nesting -/

mutual
/-- How many containers are nested in a value. -/
def depth : Json → Nat
  | .null | .bool _ | .number _ | .text _ => 0
  | .array items => itemsDepth items + 1
  | .object members => membersDepth members + 1

def itemsDepth : List Json → Nat
  | [] => 0
  | item :: rest => max item.depth (itemsDepth rest)

def membersDepth : List (Option String × Json) → Nat
  | [] => 0
  | (_, value) :: rest => max value.depth (membersDepth rest)
end

theorem depth_le_itemsDepth {item : Json} {items : List Json} (h : item ∈ items) :
    item.depth ≤ itemsDepth items := by
  induction items with
  | nil => cases h
  | cons first rest ih =>
    rw [itemsDepth]
    rcases List.mem_cons.mp h with rfl | h
    · exact Nat.le_max_left _ _
    · exact Nat.le_trans (ih h) (Nat.le_max_right _ _)

theorem depth_le_membersDepth {key : Option String} {value : Json}
    {members : List (Option String × Json)} (h : (key, value) ∈ members) :
    value.depth ≤ membersDepth members := by
  induction members with
  | nil => cases h
  | cons first rest ih =>
    obtain ⟨firstKey, firstValue⟩ := first
    rw [membersDepth]
    rcases List.mem_cons.mp h with heq | h
    · obtain ⟨-, rfl⟩ := Prod.mk.inj heq
      exact Nat.le_max_left _ _
    · exact Nat.le_trans (ih h) (Nat.le_max_right _ _)

/-! ## Fields -/

/-- How an object holds one field: not at all, or with a value under one spelling. -/
inductive Field (spellings : List String) (omittable : Prop) (IsValue : Json → Prop) :
    List (String × Json) → Prop
  | omitted (h : omittable) : Field spellings omittable IsValue []
  | written (spelling : String) {value : Json} (hspelling : spelling ∈ spellings)
    (hvalue : IsValue value) : Field spellings omittable IsValue [(spelling, value)]

/-- An object with these members in any order, and besides them texts under keys that are not
known. -/
inductive ObjectOf (known : List String) (members : List (String × Json)) : Json → Prop
  | mk (all : List (String × Json)) (others : List (String × String))
    (hothers : ∀ other ∈ others, other.1 ∉ known)
    (hall : all.Perm (members ++ others.map fun other => (other.1, string other.2))) :
    ObjectOf known members (.object (all.map fun member => (some member.1, member.2)))

namespace Field

variable {spellings : List String} {omittable : Prop} {IsValue : Json → Prop}
  {field : List (String × Json)}

theorem filter_self (h : Field spellings omittable IsValue field) :
    field.filter (spellings.contains ·.1) = field := by
  cases h with
  | omitted => rfl
  | written spelling hspelling hvalue => simp [hspelling]

theorem filter_other (h : Field spellings omittable IsValue field) {others : List String}
    (hdisjoint : ∀ spelling ∈ spellings, spelling ∉ others) :
    field.filter (others.contains ·.1) = [] := by
  cases h with
  | omitted => rfl
  | written spelling hspelling hvalue => simp [hdisjoint _ hspelling]

theorem of_mem (h : Field spellings omittable IsValue field) {member : String × Json}
    (hmember : member ∈ field) : member.1 ∈ spellings ∧ IsValue member.2 := by
  cases h with
  | omitted => cases hmember
  | written spelling hspelling hvalue => exact List.mem_singleton.mp hmember ▸ ⟨hspelling, hvalue⟩

/-- Reading a field gives its value, or the default where it is left out. -/
theorem optional? {α : Type} (h : Field spellings omittable IsValue field) (position : Nat)
    (missing : α) (read : Json → Option α) {members : List (String × Json)} {value : α}
    (hmembers : (members.filter (spellings.contains ·.1)).Perm field)
    (homitted : omittable → missing = value)
    (hread : ∀ key j, (key, j) ∈ field → IsValue j → read j = some value) :
    (Record.named members).optional? position spellings missing read = some value := by
  cases h with
  | omitted h =>
    have hfield : (Record.named members).field? position spellings = some none := by
      rw [Record.field?, List.perm_nil.mp hmembers]
    simp [Record.optional?, hfield, homitted h]
  | @written spelling j hspelling hvalue =>
    have hfield : (Record.named members).field? position spellings = some (some j) := by
      rw [Record.field?, List.perm_singleton.mp hmembers]
    simp [Record.optional?, hfield, hread spelling j List.mem_cons_self hvalue]

theorem required? {α : Type} (h : Field spellings False IsValue field) (position : Nat)
    (read : Json → Option α) (value : α) {members : List (String × Json)}
    (hmembers : (members.filter (spellings.contains ·.1)).Perm field)
    (hread : ∀ key j, (key, j) ∈ field → IsValue j → read j = some value) :
    (Record.named members).required? position spellings read = some value := by
  cases h with
  | omitted h => exact h.elim
  | @written spelling j hspelling hvalue =>
    have hfield : (Record.named members).field? position spellings = some (some j) := by
      rw [Record.field?, List.perm_singleton.mp hmembers]
    simp [Record.required?, hfield, hread spelling j List.mem_cons_self hvalue]

end Field

namespace ObjectOf

variable {known : List String} {members : List (String × Json)} {j : Json}

/-- The record of an object has the known fields that the object was made of. -/
theorem record? (h : ObjectOf known members j) : ∃ all, j.record? = some (.named all) ∧
    ∀ spellings : List String, (∀ spelling ∈ spellings, spelling ∈ known) →
      (all.filter (spellings.contains ·.1)).Perm (members.filter (spellings.contains ·.1)) := by
  obtain ⟨all, others, hothers, hall⟩ := h
  refine ⟨all, ?_, fun spellings hknown => ?_⟩
  · have hkeys : (all.map fun member => (some member.1, member.2)).mapM textKey? = some all := by
      clear hall
      induction all with
      | nil => rfl
      | cons member rest ih => simp [textKey?, ih]
    rw [Json.record?, hkeys]
    rfl
  · have hnone : (others.map fun other => (other.1, string other.2)).filter
        (spellings.contains ·.1) = [] := by
      refine List.filter_eq_nil_iff.mpr fun member hmember => ?_
      obtain ⟨other, hother, rfl⟩ := List.mem_map.mp hmember
      simpa using fun hspelling => hothers other hother (hknown _ hspelling)
    have hfilter := hall.filter (spellings.contains ·.1)
    rwa [List.filter_append, hnone, List.append_nil] at hfilter

theorem depth_lt (h : ObjectOf known members j) {key : String} {value : Json}
    (hmember : (key, value) ∈ members) : value.depth < j.depth := by
  obtain ⟨all, others, hothers, hall⟩ := h
  have hmem := List.mem_map_of_mem (f := fun member => (some member.1, member.2))
    (hall.mem_iff.mpr (List.mem_append_left _ hmember))
  exact Nat.lt_succ_of_le (depth_le_membersDepth hmem)

theorem depth_pos (h : ObjectOf known members j) : 0 < j.depth := by
  obtain ⟨all, others, hothers, hall⟩ := h
  exact Nat.succ_pos _

theorem readable (h : ObjectOf known members j) {room : Nat}
    (hmembers : ∀ member ∈ members, member.2.readable room = true) :
    j.readable (room + 1) = true := by
  obtain ⟨all, others, hothers, hall⟩ := h
  rw [Json.readable, List.all_eq_true]
  intro member hmember
  obtain ⟨⟨key, value⟩, hvalue, rfl⟩ := List.mem_map.mp hmember
  rcases List.mem_append.mp (hall.mem_iff.mp hvalue) with hvalue | hvalue
  · simpa using hmembers _ hvalue
  · obtain ⟨other, -, heq⟩ := List.mem_map.mp hvalue
    obtain ⟨rfl, rfl⟩ := Prod.mk.inj heq
    simp [string, Json.readable]

end ObjectOf
end Json
end FeatureGates
