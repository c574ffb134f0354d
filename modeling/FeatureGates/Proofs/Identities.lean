import FeatureGates.Evaluation
import FeatureGates.Proofs.Requests

/-!
Chains of sources of identifiers.

Chains may stand inside chains, and each of them passes over empty identifiers on its own.  All of
this comes to going through the leaves from left to right: the first of their answers that is not
empty is the answer of the whole chain.  So it makes no difference how the leaves are grouped, and
an empty chain may stand anywhere.

The identity that takes the customer and else the anonymous identifier is not a chain, and passes
over nothing.  It agrees with the chain of the two because a request that is built from parts never
holds an empty identifier.
-/

namespace FeatureGates
namespace Identity

mutual
/-- The sources at the leaves, from left to right. -/
def leaves : Identity → List (Request → Option String)
  | source find? => [find?]
  | chain sources => leavesOf sources

def leavesOf : List Identity → List (Request → Option String)
  | [] => []
  | first :: rest => leaves first ++ leavesOf rest
end

/-- No identifier, or an empty one. -/
def IsVoid (answer : Option String) : Prop := ∀ id ∈ answer, id = ""

/-- The first of the answers that is not void, or nothing if all are. -/
inductive FirstOf (answers : List (Option String)) : Option String → Prop
  | found {before after : List (Option String)} {id : String}
      (hanswers : answers = before ++ some id :: after) (hbefore : ∀ a ∈ before, IsVoid a)
      (hid : id ≠ "") : FirstOf answers (some id)
  | missing (hvoid : ∀ a ∈ answers, IsVoid a) : FirstOf answers none

/-! ## Leaves -/

theorem leavesOf_append (sources sources' : List Identity) :
    leavesOf (sources ++ sources') = leavesOf sources ++ leavesOf sources' := by
  induction sources with
  | nil => rfl
  | cons first rest ih => rw [List.cons_append, leavesOf, leavesOf, ih, List.append_assoc]

/-- A chain inside a chain has the leaves that its sources have in its place. -/
theorem leavesOf_splice (before inner after : List Identity) :
    leavesOf (before ++ chain inner :: after) = leavesOf (before ++ inner ++ after) := by
  rw [leavesOf_append, leavesOf, leaves, leavesOf_append, leavesOf_append, List.append_assoc]

/-! ## Answers -/

/-- An empty identifier counts as none. -/
def nonVoid? (answer : Option String) : Option String := answer.filter fun id => !id.isEmpty

theorem nonVoid?_eq_some_iff {answer : Option String} {id : String} :
    nonVoid? answer = some id ↔ answer = some id ∧ id ≠ "" := by
  rw [nonVoid?, Option.filter_eq_some_iff, Bool.not_eq_true', String.isEmpty_eq_false_iff]

theorem nonVoid?_eq_none_iff {answer : Option String} : nonVoid? answer = none ↔ IsVoid answer := by
  rw [nonVoid?, Option.filter_eq_none_iff]
  simp [IsVoid]

theorem nonVoid?_findSome? (answers : List (Option String)) :
    nonVoid? (answers.findSome? nonVoid?) = answers.findSome? nonVoid? := by
  cases hfirst : answers.findSome? nonVoid? with
  | none => rfl
  | some id =>
    obtain ⟨answer, -, hanswer⟩ := List.exists_of_findSome?_eq_some hfirst
    exact nonVoid?_eq_some_iff.mpr ⟨rfl, (nonVoid?_eq_some_iff.mp hanswer).2⟩

theorem firstNonEmpty_cons (r : Request) (first : Identity) (rest : List Identity) :
    firstNonEmpty r (first :: rest) =
      (nonVoid? (first.resolve r)).or (firstNonEmpty r rest) := by
  rw [firstNonEmpty]
  cases first.resolve r with
  | none => rfl
  | some id =>
    rw [nonVoid?, Option.filter_some]
    by_cases hid : id.isEmpty <;> simp [hid]

theorem findSome?_eq_iff_firstOf {answers : List (Option String)} {answer : Option String} :
    answers.findSome? nonVoid? = answer ↔ FirstOf answers answer := by
  cases answer with
  | none =>
    rw [List.findSome?_eq_none_iff]
    simp only [nonVoid?_eq_none_iff]
    refine ⟨FirstOf.missing, fun hfirst => ?_⟩
    cases hfirst with
    | missing hvoid => exact hvoid
  | some id =>
    rw [List.findSome?_eq_some_iff]
    simp only [nonVoid?_eq_some_iff, nonVoid?_eq_none_iff]
    constructor
    · rintro ⟨before, _, after, hanswers, ⟨rfl, hid⟩, hbefore⟩
      exact .found hanswers hbefore hid
    · intro hfirst
      cases hfirst with
      | @found before after _ hanswers hbefore hid =>
        exact ⟨before, some id, after, hanswers, ⟨rfl, hid⟩, hbefore⟩

mutual
/-- As a part of a chain, an identity answers like its leaves one after another. -/
theorem nonVoid?_resolve (r : Request) : (i : Identity) →
    nonVoid? (i.resolve r) = (i.leaves.map (· r)).findSome? nonVoid?
  | source find? => by simp [resolve, leaves]
  | chain sources => by
    rw [resolve, leaves, firstNonEmpty_eq r sources, nonVoid?_findSome?]

theorem firstNonEmpty_eq (r : Request) : (sources : List Identity) →
    firstNonEmpty r sources = ((leavesOf sources).map (· r)).findSome? nonVoid?
  | [] => rfl
  | first :: rest => by
    rw [firstNonEmpty_cons, nonVoid?_resolve r first, firstNonEmpty_eq r rest, leavesOf,
      List.map_append, List.findSome?_append]
end

/-- A chain answers like its leaves one after another. -/
theorem resolve_chain_iff {r : Request} {sources : List Identity} {answer : Option String} :
    (chain sources).resolve r = answer ↔ FirstOf ((leavesOf sources).map (· r)) answer := by
  rw [resolve, firstNonEmpty_eq, findSome?_eq_iff_firstOf]

theorem resolve_chain_congr {sources sources' : List Identity}
    (hleaves : leavesOf sources = leavesOf sources') (r : Request) :
    (chain sources).resolve r = (chain sources').resolve r := by
  rw [resolve, resolve, firstNonEmpty_eq, firstNonEmpty_eq, hleaves]

/-! ## The identity that is used by default -/

theorem ne_empty_of_field (parts : List RequestPart) (field : TextField) {id : String}
    (hid : field.get? (Request.ofParts parts) = some id) : id ≠ "" := by
  rw [Request.get?_ofParts, Option.bind_eq_some_iff] at hid
  obtain ⟨value, -, hvalue⟩ := hid
  exact (Text.nonBlank?_eq_some_iff.mp hvalue).1

theorem nonVoid?_field (parts : List RequestPart) (field : TextField) :
    nonVoid? (field.get? (Request.ofParts parts)) = field.get? (Request.ofParts parts) := by
  cases hfield : field.get? (Request.ofParts parts) with
  | none => rfl
  | some id => exact nonVoid?_eq_some_iff.mpr ⟨rfl, ne_empty_of_field parts field hfield⟩

/-- A request that is built from parts has no empty identifier that a chain would pass over. -/
theorem resolve_customerOrAnonymous (parts : List RequestPart) :
    customerOrAnonymous.resolve (Request.ofParts parts) =
      (chain [customer, anonymous]).resolve (Request.ofParts parts) := by
  have hcustomer : nonVoid? (Request.ofParts parts).customer = (Request.ofParts parts).customer :=
    nonVoid?_field parts .customer
  have hanonymous : nonVoid? (Request.ofParts parts).anonymous =
      (Request.ofParts parts).anonymous := nonVoid?_field parts .anonymous
  rw [resolve, firstNonEmpty_cons, firstNonEmpty_cons, customer, anonymous, resolve, resolve,
    hcustomer, hanonymous, firstNonEmpty, Option.or_none]
  rfl

/-- A tree of chains answers what the first of its leaves that has an identifier answers, from left
to right, and has none if they have none.  So trees with the same leaves agree, however deep the
leaves are, and a chain inside a chain, empty or not, can be replaced by its sources.  On requests
that are built from parts the default identity is the chain of the customer and the anonymous
identifier. -/
theorem chains_by_leaves :
    (∀ r sources answer, (chain sources).resolve r = answer ↔
      FirstOf ((leavesOf sources).map (· r)) answer) ∧
    (∀ sources sources', leavesOf sources = leavesOf sources' →
      ∀ r, (chain sources).resolve r = (chain sources').resolve r) ∧
    (∀ before inner after, ∀ r, (chain (before ++ chain inner :: after)).resolve r =
      (chain (before ++ inner ++ after)).resolve r) ∧
    ∀ parts, ({} : Options).identity.resolve (Request.ofParts parts) =
      (chain [customer, anonymous]).resolve (Request.ofParts parts) :=
  ⟨fun _ _ _ => resolve_chain_iff, fun _ _ => resolve_chain_congr,
    fun before inner after => resolve_chain_congr (leavesOf_splice before inner after),
    resolve_customerOrAnonymous⟩

theorem chains_by_leaves_nested :
    let tree := [chain [], constant (some ""), chain [chain [constant none, customer],
      chain [chain []], anonymous], constant (some "last")]
    let row := [constant (some ""), constant none, customer, anonymous, constant (some "last")]
    let r : Request := { anonymous := some "device" }
    leavesOf tree = leavesOf row ∧ (chain row).resolve r = some "device" ∧
      (chain tree).resolve r = some "device" ∧
      FirstOf [some "", none, none, some "device", some "last"] (some "device") ∧
      (chain []).resolve r = none := by
  intro tree row r
  obtain ⟨hfirst, hleaves, -, -⟩ := chains_by_leaves
  have hsame : leavesOf tree = leavesOf row := rfl
  have hrow : (chain row).resolve r = some "device" := by decide
  exact ⟨hsame, hrow, (hleaves tree row hsame r).trans hrow, (hfirst r row _).mp hrow, rfl⟩

end Identity
end FeatureGates
