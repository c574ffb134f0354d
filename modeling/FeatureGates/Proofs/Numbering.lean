import FeatureGates.Hierarchy.Load
import FeatureGates.View

/-!
Numbers of gates.  A gate of a loaded hierarchy stands at the place its number says, so it is told
by its number; evaluations rely on this, because they keep their progress by number.
-/

namespace FeatureGates

/-- A list is read back from lookups at the numbers of its places. -/
theorem filterMap_range'_eq {α : Type} {f : Nat → Option α} {l : List α} {first : Nat}
    (hf : ∀ k x, l[k]? = some x → f (first + k) = some x) :
    (List.range' first l.length).filterMap f = l := by
  induction l generalizing first with
  | nil => rfl
  | cons x rest ih =>
    have hfirst := hf 0 x rfl
    rw [Nat.add_zero] at hfirst
    have hnext : ∀ k y, rest[k]? = some y → f (first + 1 + k) = some y := by
      intro k y hy
      have hy' := hf (k + 1) y hy
      rw [← Nat.add_assoc, Nat.add_right_comm] at hy'
      exact hy'
    have hrest := ih hnext
    rw [List.length_cons, List.range'_succ, List.filterMap_cons, hfirst, hrest]

namespace Placement

theorem getElem?_number (id firstChild : Nat) (l : List Placement) (i : Nat) :
    (number id firstChild l)[i]? = l[i]?.map fun p =>
      p.toGate (id + i) (firstChild + ((l.take i).flatMap (·.definition.children)).length) := by
  induction l generalizing id firstChild i with
  | nil => rfl
  | cons p rest ih =>
    cases i with
    | zero => rfl
    | succ i =>
      rw [number, List.getElem?_cons_succ, List.getElem?_cons_succ, ih]
      have hid : id + 1 + i = id + (i + 1) := by omega
      rw [List.take_succ_cons, List.flatMap_cons, List.length_append, hid, Nat.add_assoc]

end Placement

namespace Hierarchy

/-- Every gate has the number of its place. -/
def Numbered (h : Hierarchy) : Prop := ∀ i g, h.gate? i = some g → g.id = i

theorem Numbered.gate?_id {h : Hierarchy} (hn : h.Numbered) {g : Gate} (hg : g ∈ h.gates) :
    h.gate? g.id = some g := by
  obtain ⟨i, hi⟩ := List.mem_iff_getElem?.mp hg
  rw [hn i g hi]
  exact hi

theorem Numbered.eq_of_id_eq {h : Hierarchy} (hn : h.Numbered) {g g' : Gate} (hg : g ∈ h.gates)
    (hg' : g' ∈ h.gates) (hid : g.id = g'.id) : g = g' := by
  have hfound := hn.gate?_id hg
  rw [hid, hn.gate?_id hg'] at hfound
  cases hfound
  rfl

/-- The hierarchy of a document that was accepted.  The version is set later, by the store that
publishes the hierarchy. -/
def Loaded (h : Hierarchy) : Prop :=
  ∃ d, (ofDocument d).answer = .ok { h with version := 0 }

/-- What is accepted is what the document was flattened to. -/
theorem gates_of_ofDocument {d : Document} {h : Hierarchy}
    (hd : (ofDocument d).answer = .ok h) : h.gates = d.toGates := by
  unfold ofDocument at hd
  split at hd
  · cases hd
  · rw [Noted.answer_map] at hd
    split at hd
    · cases hd
    · cases hd
      rfl

theorem Loaded.exists_document {h : Hierarchy} (hl : h.Loaded) :
    ∃ d : Document, h.gates = d.toGates := by
  obtain ⟨d, hd⟩ := hl
  exact ⟨d, gates_of_ofDocument (h := { h with version := 0 }) hd⟩

theorem numbered_of_gates_eq {h : Hierarchy} {d : Document} (hd : h.gates = d.toGates) :
    h.Numbered := by
  intro i g hg
  rw [gate?, hd, Document.toGates, Placement.getElem?_number] at hg
  obtain ⟨p, -, rfl⟩ := Option.map_eq_some_iff.mp hg
  exact Nat.zero_add i

theorem Loaded.numbered {h : Hierarchy} (hl : h.Loaded) : h.Numbered := by
  obtain ⟨d, hd⟩ := hl.exists_document
  exact numbered_of_gates_eq hd

end Hierarchy

/-- A view shows part of a hierarchy: a lookup finds what it finds in the hierarchy, or nothing. -/
structure View.PartOf (v : View) (h : Hierarchy) : Prop where
  gate? : ∀ id g, v.gate? id = some g → h.gate? id = some g
  named? : ∀ name g, v.named? name = some g → h.named? name = some g
  size : v.size = h.size

namespace View

theorem partOf_view (h : Hierarchy) : h.view.PartOf h :=
  ⟨fun _ _ hg => hg, fun _ _ hg => hg, rfl⟩

theorem gates_view (h : Hierarchy) : h.view.gates = h.gates := by
  show (List.range h.gates.length).filterMap h.gate? = h.gates
  rw [List.range_eq_range']
  refine filterMap_range'_eq fun k g hg => ?_
  rw [Nat.zero_add]
  exact hg

theorem PartOf.hide {v : View} {h : Hierarchy} (hv : v.PartOf h) (ids : List Nat)
    (names : List String) : (v.hide ids names).PartOf h where
  gate? id g hg := by
    simp only [View.hide] at hg
    split at hg
    · cases hg
    · exact hv.gate? id g hg
  named? name g hg := hv.named? name g (Option.filter_eq_some_iff.mp hg).1
  size := hv.size

theorem PartOf.mem_of_gate? {v : View} {h : Hierarchy} (hv : v.PartOf h) {id : Nat} {g : Gate}
    (hg : v.gate? id = some g) : g ∈ h.gates :=
  List.mem_of_getElem? (hv.gate? id g hg)

theorem PartOf.mem_of_named? {v : View} {h : Hierarchy} (hv : v.PartOf h) {name : String}
    {g : Gate} (hg : v.named? name = some g) : g ∈ h.gates :=
  List.mem_of_find?_eq_some (hv.named? name g hg)

end View
end FeatureGates
