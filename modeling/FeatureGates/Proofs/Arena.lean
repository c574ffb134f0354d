import FeatureGates.Proofs.Flattening

/-!
The gates of a document as they are stored: what the numbers in them mean, and the way back to the
document.
-/

namespace FeatureGates

namespace Hierarchy

/-- `names` leads from the root down to a gate, by way of its containers. -/
inductive Trail (h : Hierarchy) : Gate → List String → Prop
  | root {g : Gate} (hg : g.container = none) : Trail h g [g.name]
  | inside {g c : Gate} {id : Nat} {names : List String} (hid : g.container = some id)
      (hc : h.gate? id = some c) (hnames : Trail h c names) : Trail h g (names ++ [g.name])

theorem Trail.ne_nil {h : Hierarchy} {g : Gate} {names : List String} (htrail : h.Trail g names) :
    names ≠ [] := by
  cases htrail <;> simp

/-- The definition that a gate was made from, down to a depth. -/
def definitionOf (h : Hierarchy) : (depth : Nat) → Gate → Definition
  | 0, g => ⟨g.group, g.filters, []⟩
  | depth + 1, g =>
    ⟨g.group, g.filters, g.children.filterMap fun id =>
      (h.gate? id).map fun c => (c.name, h.definitionOf depth c)⟩

/-- The document that a hierarchy was made from.  No gate is deeper than there are gates. -/
def toDocument (h : Hierarchy) : Document :=
  ⟨h.roots.map fun g => (g.name, h.definitionOf h.size g)⟩

/-- The gates of a hierarchy are those of a document, stored by depth. -/
structure Flattens (h : Hierarchy) (d : Document) : Prop where
  numbered : h.Numbered
  /-- The numbers go by depth and then in document order. -/
  order : h.gates.map (fun g => (g.name, g.path, g.group, g.filters)) =
    d.sitesByDepth.map fun x => (x.name, x.path, x.definition.group, x.definition.filters)
  container_lt : ∀ g ∈ h.gates, ∀ id, g.container = some id → id < g.id
  children_contiguous : ∀ g ∈ h.gates, ∃ first, g.children = List.range' first g.children.length
  mem_children : ∀ g ∈ h.gates, ∀ id,
    id ∈ g.children ↔ ∃ c, h.gate? id = some c ∧ c.container = some g.id
  roots : h.roots.map (·.id) = List.range d.gates.length
  mem_roots : ∀ g, g ∈ h.roots ↔ g ∈ h.gates ∧ g.container = none
  path : ∀ g ∈ h.gates, ∃ names, h.Trail g names ∧ g.path = "/".intercalate names
  toDocument : h.toDocument = d

end Hierarchy

namespace Placement

/-- The number of the first gate inside the gate with number `i`. -/
def firstInside (d : Document) (i : Nat) : Nat :=
  d.gates.length + (((ofDocument d).take i).flatMap (·.definition.children)).length

theorem gate?_eq {h : Hierarchy} {d : Document} (hd : h.gates = d.toGates) (i : Nat) :
    h.gate? i = (ofDocument d)[i]?.map fun p => p.toGate i (firstInside d i) := by
  rw [Hierarchy.gate?, hd, Document.toGates, getElem?_number, Nat.zero_add]
  rfl

theorem length_flatMap_children (l : List Placement) (first : Nat) :
    ((l.zipIdx first).flatMap fun q => q.1.children q.2).length =
      (l.flatMap (·.definition.children)).length := by
  induction l generalizing first with
  | nil => rfl
  | cons p rest ih =>
    rw [List.zipIdx_cons, List.flatMap_cons, List.flatMap_cons, List.length_append,
      List.length_append, ih]
    simp [children, ofSiblings]

/-- The placements before, inside and after what the gate with number `i` contains. -/
theorem ofDocument_split {d : Document} {i : Nat} {p : Placement}
    (hp : (ofDocument d)[i]? = some p) :
    ∃ before after, ofDocument d = before ++ p.children i ++ after ∧
      before.length = firstInside d i ∧
      (∀ q ∈ before, q.container ≠ some i) ∧ (∀ q ∈ after, q.container ≠ some i) := by
  obtain ⟨hi, hpi⟩ := List.getElem?_eq_some_iff.mp hp
  have hsplit : ofDocument d = (ofDocument d).take i ++ p :: (ofDocument d).drop (i + 1) := by
    rw [← hpi, ← List.drop_eq_getElem_cons hi, List.take_append_drop]
  have hlen : ((ofDocument d).take i).length = i := by
    rw [List.length_take]
    omega
  have heq := ofDocument_eq d
  conv_rhs at heq => rw [hsplit]
  rw [List.zipIdx_append, List.zipIdx_cons, List.flatMap_append, List.flatMap_cons, hlen,
    Nat.zero_add, ← List.append_assoc, ← List.append_assoc] at heq
  refine ⟨_, _, heq, ?_, ?_, ?_⟩
  · rw [List.length_append, length_flatMap_children, firstInside]
    simp [ofSiblings]
  · intro q hq hc
    rcases List.mem_append.mp hq with hq | hq
    · obtain ⟨entry, -, rfl⟩ := List.mem_map.mp hq
      cases hc
    · obtain ⟨⟨p', j⟩, hp', hq⟩ := List.mem_flatMap.mp hq
      have hlt := List.snd_lt_add_of_mem_zipIdx hp'
      rw [(of_mem_children hq).2.1] at hc
      cases hc
      omega
  · intro q hq hc
    obtain ⟨⟨p', j⟩, hp', hq⟩ := List.mem_flatMap.mp hq
    have hle := List.le_snd_of_mem_zipIdx hp'
    rw [(of_mem_children hq).2.1] at hc
    cases hc
    omega

/-- The placements inside a gate stand together, from the number of the first of them on. -/
theorem getElem?_firstInside {d : Document} {i k : Nat} {p q : Placement}
    (hp : (ofDocument d)[i]? = some p) (hq : (p.children i)[k]? = some q) :
    (ofDocument d)[firstInside d i + k]? = some q := by
  obtain ⟨before, after, heq, hlen, -, -⟩ := ofDocument_split hp
  have hk := (List.getElem?_eq_some_iff.mp hq).1
  rw [heq, ← hlen, List.append_assoc, List.getElem?_append_right (by omega),
    List.getElem?_append_left (by omega)]
  simpa using hq

theorem container_eq_iff {d : Document} {i j : Nat} {p q : Placement}
    (hp : (ofDocument d)[i]? = some p) (hq : (ofDocument d)[j]? = some q) :
    q.container = some i ↔
      firstInside d i ≤ j ∧ j < firstInside d i + p.definition.children.length := by
  obtain ⟨before, after, heq, hlen, hbefore, hafter⟩ := ofDocument_split hp
  have hcount : (p.children i).length = p.definition.children.length := by
    simp [children, ofSiblings]
  rw [heq, List.append_assoc, List.getElem?_append] at hq
  constructor
  · intro hc
    split at hq
    · exact absurd hc (hbefore q (List.mem_of_getElem? hq))
    · rw [List.getElem?_append] at hq
      split at hq
      · omega
      · exact absurd hc (hafter q (List.mem_of_getElem? hq))
  · intro hj
    rw [if_neg (by omega), List.getElem?_append_left (by omega)] at hq
    exact (of_mem_children (List.mem_of_getElem? hq)).2.1

/-- A gate is at the top or inside a gate before it. -/
theorem container_cases {d : Document} {p : Placement} (hp : p ∈ ofDocument d) :
    (p.container = none ∧ p.path = p.name) ∨
      ∃ i q, (ofDocument d)[i]? = some q ∧ p.container = some i ∧
        p.path = q.path ++ "/" ++ p.name := by
  rw [ofDocument_eq] at hp
  rcases List.mem_append.mp hp with hp | hp
  · obtain ⟨entry, -, rfl⟩ := List.mem_map.mp hp
    exact Or.inl ⟨rfl, rfl⟩
  · obtain ⟨⟨q, i⟩, hq, hp⟩ := List.mem_flatMap.mp hp
    obtain ⟨-, hcontainer, hpath⟩ := of_mem_children hp
    exact Or.inr ⟨i, q, List.mem_zipIdx_iff_getElem?.mp hq, hcontainer, hpath⟩

theorem number_append (id firstChild : Nat) (l l' : List Placement) :
    number id firstChild (l ++ l') = number id firstChild l ++
      number (id + l.length) (firstChild + (l.flatMap (·.definition.children)).length) l' := by
  induction l generalizing id firstChild with
  | nil => rfl
  | cons p rest ih =>
    have hid : id + 1 + rest.length = id + (rest.length + 1) := by omega
    rw [List.cons_append, number, number, ih, hid, List.flatMap_cons, List.length_append,
      Nat.add_assoc, List.length_cons, List.cons_append]

theorem map_number {α : Type} {f : Gate → α} {e : Placement → α}
    (hf : ∀ p i c, f (toGate p i c) = e p) (id firstChild : Nat) (l : List Placement) :
    (number id firstChild l).map f = l.map e := by
  induction l generalizing id firstChild with
  | nil => rfl
  | cons p rest ih => rw [number, List.map_cons, List.map_cons, hf, ih]

theorem exists_of_mem_number {id firstChild : Nat} {l : List Placement} {g : Gate}
    (hg : g ∈ number id firstChild l) : ∃ p ∈ l, g.container = p.container := by
  have hmap := map_number (f := Gate.container) (e := Placement.container)
    (fun _ _ _ => rfl) id firstChild l
  have hmem := List.mem_map_of_mem (f := Gate.container) hg
  rw [hmap] at hmem
  obtain ⟨p, hp, hcontainer⟩ := List.mem_map.mp hmem
  exact ⟨p, hp, hcontainer.symm⟩

end Placement

namespace Hierarchy

open Placement

variable {h : Hierarchy} {d : Document}

theorem gate?_eq_some_iff (hd : h.gates = d.toGates) {i : Nat} {g : Gate} :
    h.gate? i = some g ↔
      ∃ p, (Placement.ofDocument d)[i]? = some p ∧ p.toGate i (firstInside d i) = g := by
  rw [gate?_eq hd, Option.map_eq_some_iff]

theorem exists_placement (hd : h.gates = d.toGates) {g : Gate} (hg : g ∈ h.gates) :
    ∃ (i : Nat) (p : Placement),
      (Placement.ofDocument d)[i]? = some p ∧ p.toGate i (firstInside d i) = g := by
  obtain ⟨i, hi⟩ := List.mem_iff_getElem?.mp hg
  exact ⟨i, (gate?_eq_some_iff hd).mp hi⟩

theorem size_eq (hd : h.gates = d.toGates) : h.size = (Placement.ofDocument d).length := by
  rw [size, hd, Document.toGates, length_number]

theorem mem_children_iff (hd : h.gates = d.toGates) {g : Gate} (hg : g ∈ h.gates) {id : Nat} :
    id ∈ g.children ↔ ∃ c, h.gate? id = some c ∧ c.container = some g.id := by
  obtain ⟨i, p, hp, rfl⟩ := exists_placement hd hg
  have hchildren : id ∈ (p.toGate i (firstInside d i)).children ↔
      firstInside d i ≤ id ∧ id < firstInside d i + p.definition.children.length :=
    List.mem_range'_1
  rw [hchildren]
  constructor
  · intro hid
    obtain ⟨hle, hlt⟩ := hid
    have hk : id - firstInside d i < (p.children i).length := by
      simp only [children, ofSiblings, List.length_map]
      omega
    have hq := getElem?_firstInside hp (List.getElem?_eq_getElem hk)
    have hsum : firstInside d i + (id - firstInside d i) = id := by omega
    rw [hsum] at hq
    exact ⟨_, (gate?_eq_some_iff hd).mpr ⟨_, hq, rfl⟩,
      (of_mem_children (List.getElem_mem hk)).2.1⟩
  · rintro ⟨c, hc, hcontainer⟩
    obtain ⟨q, hq, rfl⟩ := (gate?_eq_some_iff hd).mp hc
    exact (container_eq_iff hp hq).mp hcontainer

/-- The gates at the top are the first gates. -/
theorem roots_eq_take (hd : h.gates = d.toGates) : h.roots = h.gates.take d.gates.length := by
  have htop : (number 0 d.gates.length (ofSiblings none d.gates)).length = d.gates.length := by
    rw [length_number, ofSiblings, List.length_map]
  have hgates := hd
  rw [Document.toGates, ofDocument_eq, number_append] at hgates
  rw [roots, hgates, List.filter_append, List.take_left' htop, List.filter_eq_self.mpr,
    List.filter_eq_nil_iff.mpr, List.append_nil]
  · intro g hg hnone
    obtain ⟨p, hp, hcontainer⟩ := exists_of_mem_number hg
    obtain ⟨⟨q, id⟩, -, hp⟩ := List.mem_flatMap.mp hp
    rw [hcontainer, (of_mem_children hp).2.1] at hnone
    cases hnone
  · intro g hg
    obtain ⟨p, hp, hcontainer⟩ := exists_of_mem_number hg
    obtain ⟨entry, -, rfl⟩ := List.mem_map.mp hp
    rw [hcontainer]
    rfl

theorem exists_trail (hd : h.gates = d.toGates) {g : Gate} (hg : g ∈ h.gates) :
    ∃ names, h.Trail g names ∧ g.path = "/".intercalate names := by
  obtain ⟨i, p, hp, rfl⟩ := exists_placement hd hg
  clear hg
  -- Containers have lower numbers, so the induction is on the number.
  induction i using Nat.strongRecOn generalizing p with
  | ind i ih =>
    rcases container_cases (List.mem_of_getElem? hp) with ⟨hcontainer, hpath⟩ |
      ⟨c, q, hq, hcontainer, hpath⟩
    · refine ⟨[p.name], Trail.root hcontainer, ?_⟩
      rw [String.intercalate_singleton]
      exact hpath
    · obtain ⟨names, htrail, hnames⟩ := ih c (container_lt hp hcontainer) q hq
      have hfound := (gate?_eq_some_iff hd).mpr ⟨q, hq, rfl⟩
      refine ⟨names ++ [p.name], Trail.inside hcontainer hfound htrail, ?_⟩
      rw [String.intercalate_append_of_ne_nil htrail.ne_nil (by simp),
        String.intercalate_singleton, ← hnames]
      exact hpath

/-! ## The way back -/

theorem definitionOf_eq (hd : h.gates = d.toGates) {i depth : Nat} {p : Placement}
    (hp : (Placement.ofDocument d)[i]? = some p) (hdepth : h.size ≤ i + depth) :
    h.definitionOf depth (p.toGate i (firstInside d i)) = p.definition := by
  induction depth generalizing i p with
  | zero =>
    have hi := (List.getElem?_eq_some_iff.mp hp).1
    rw [size_eq hd] at hdepth
    omega
  | succ depth ih =>
    have hchildren : (List.range' (firstInside d i) p.definition.children.length).filterMap
        (fun id => (h.gate? id).map fun c => (c.name, h.definitionOf depth c)) =
        p.definition.children := by
      refine filterMap_range'_eq fun k entry hentry => ?_
      have hq : (p.children i)[k]? = some
          ⟨entry.1, pathBelow (some p.path) entry.1, some i, entry.2⟩ := by
        rw [children, ofSiblings, List.getElem?_map, hentry]
        rfl
      have hplaced := getElem?_firstInside hp hq
      have hlt := container_lt hplaced rfl
      rw [(gate?_eq_some_iff hd).mpr ⟨_, hplaced, rfl⟩, Option.map_some,
        ih hplaced (by omega)]
      rfl
    rw [definitionOf]
    show Definition.mk p.definition.group p.definition.filters
      ((List.range' (firstInside d i) p.definition.children.length).filterMap _) = _
    rw [hchildren]
    cases p.definition
    rfl

theorem toDocument_eq (hd : h.gates = d.toGates) : h.toDocument = d := by
  have hgates : (h.roots.map fun g => (g.name, h.definitionOf h.size g)) = d.gates := by
    refine List.ext_getElem? fun i => ?_
    rw [roots_eq_take hd, List.getElem?_map, List.getElem?_take]
    split
    · rename_i hi
      have hp : (Placement.ofDocument d)[i]? = (ofSiblings none d.gates)[i]? := by
        rw [ofDocument_eq, List.getElem?_append_left (by simpa [ofSiblings] using hi)]
      have hentry := List.getElem?_eq_getElem hi
      rw [ofSiblings, List.getElem?_map, hentry] at hp
      have hg := (gate?_eq_some_iff hd).mpr ⟨_, hp, rfl⟩
      rw [gate?] at hg
      rw [hg, Option.map_some, definitionOf_eq hd hp (by omega), hentry]
      rfl
    · rename_i hi
      rw [List.getElem?_eq_none (by omega)]
      rfl
  rw [toDocument, hgates]

theorem map_gates_eq (hd : h.gates = d.toGates) :
    h.gates.map (fun g => (g.name, g.path, g.group, g.filters)) =
      d.sitesByDepth.map fun x => (x.name, x.path, x.definition.group, x.definition.filters) := by
  have hentries := congrArg (List.map fun e : String × String × Definition =>
    (e.1, e.2.1, e.2.2.group, e.2.2.filters)) (map_entry_ofDocument d)
  rw [List.map_map, List.map_map] at hentries
  rw [hd, Document.toGates]
  exact (map_number (fun _ _ _ => rfl) _ _ _).trans hentries

theorem map_id_roots (hd : h.gates = d.toGates) :
    h.roots.map (·.id) = List.range d.gates.length := by
  have hids : h.gates.map (·.id) = List.range h.size := by
    refine List.ext_getElem (by simp [size]) fun i hi _ => ?_
    rw [List.getElem_map, List.getElem_range]
    exact numbered_of_gates_eq hd i _ (List.getElem?_eq_getElem _)
  have hle : d.gates.length ≤ h.size := by
    rw [size_eq hd, ofDocument_eq, List.length_append, ofSiblings, List.length_map]
    omega
  rw [roots_eq_take hd, List.map_take, hids, List.take_range, Nat.min_eq_left hle]

theorem flattens_of_gates_eq (hd : h.gates = d.toGates) : h.Flattens d where
  numbered := numbered_of_gates_eq hd
  order := map_gates_eq hd
  container_lt g hg id hid := by
    obtain ⟨i, p, hp, rfl⟩ := exists_placement hd hg
    exact container_lt hp hid
  children_contiguous g hg := by
    obtain ⟨i, p, hp, rfl⟩ := exists_placement hd hg
    refine ⟨firstInside d i, ?_⟩
    show List.range' _ _ = List.range' _ (List.range' _ _).length
    rw [List.length_range']
  mem_children g hg id := mem_children_iff hd hg
  roots := map_id_roots hd
  mem_roots g := by rw [roots, List.mem_filter, Option.isNone_iff_eq_none]
  path g hg := exists_trail hd hg
  toDocument := toDocument_eq hd

/-- The container of a gate is found by its number. -/
theorem Loaded.exists_container (hl : h.Loaded) {g : Gate} (hg : g ∈ h.gates) {id : Nat}
    (hid : g.container = some id) : ∃ c, h.gate? id = some c := by
  obtain ⟨d, hd⟩ := hl.exists_document
  have hlt := (flattens_of_gates_eq hd).container_lt g hg id hid
  have hplace := (List.getElem?_eq_some_iff.mp (hl.numbered.gate?_id hg)).1
  exact ⟨_, List.getElem?_eq_getElem (Nat.lt_trans hlt hplace)⟩

/-- Flattening a document that is accepted loses nothing and invents nothing. -/
theorem flattens_of_ofDocument (hd : (Hierarchy.ofDocument d).answer = .ok h) : h.Flattens d :=
  flattens_of_gates_eq (gates_of_ofDocument hd)

/-- Three levels, and a name that comes back below. -/
def nested : Document where
  gates := [
    ("shop", { group := some "Payments",
               children := [
                 ("cart", { filters := [.condition (.rollout 25)], children := [("shop", {})] }),
                 ("help", {})] }),
    ("search", { children := [("fast", { filters := [.parent "shop"] })] })]

theorem flattens_nested :
    let h : Hierarchy := { gates := nested.toGates }
    (Hierarchy.ofDocument nested).answer = .ok h ∧ h.Flattens nested ∧
      h.gates.map (fun g => (g.path, g.children)) =
        [("shop", [2, 3]), ("search", [4]), ("shop/cart", [5]), ("shop/help", []),
          ("search/fast", []), ("shop/cart/shop", [])] := by
  intro h
  have hd : (Hierarchy.ofDocument nested).answer = .ok h := rfl
  exact ⟨hd, flattens_of_ofDocument hd, rfl⟩

end Hierarchy
end FeatureGates
