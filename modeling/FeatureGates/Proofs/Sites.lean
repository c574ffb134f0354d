import FeatureGates.Document
import Mathlib.Data.List.Sort

/-!
Sites: the gates of a document as they are written, each with the names around it.

In document order a gate comes before the gates inside it, and these come before its next sibling.
Sorting the sites by depth, which keeps this order within one depth, puts the levels of the document
one after another, and each level consists of what is right inside the level above it.
-/

namespace FeatureGates

/-! ## Lists sorted by a key -/

section Key

variable {α : Type} {key : α → Nat}

theorem eq_filter_append_filter {l : List α} {k : Nat}
    (hsorted : l.Pairwise fun x y => key x ≤ key y) (hk : ∀ x ∈ l, k ≤ key x) :
    l = l.filter (key · = k) ++ l.filter (key · ≠ k) := by
  induction l with
  | nil => rfl
  | cons a l ih =>
    obtain ⟨ha, hl⟩ := List.pairwise_cons.mp hsorted
    by_cases hak : key a = k
    · have hrest := ih hl fun x hx => hk x (List.mem_cons_of_mem a hx)
      simpa [hak] using hrest
    · have hka := hk a List.mem_cons_self
      have hnone : (a :: l).filter (key · = k) = [] := by
        rw [List.filter_eq_nil_iff]
        intro x hx
        rcases List.mem_cons.mp hx with rfl | hx
        · simpa using hak
        · have hax := ha x hx
          have hne : key x ≠ k := by omega
          simpa using hne
      have hall : (a :: l).filter (key · ≠ k) = a :: l := by
        rw [List.filter_eq_self]
        intro x hx
        have hne := List.filter_eq_nil_iff.mp hnone x hx
        simpa using hne
      rw [hnone, hall, List.nil_append]

/-- A list sorted by a key consists of its parts with the same key, one after another. -/
theorem eq_flatMap_filter {l : List α} {k n : Nat}
    (hsorted : l.Pairwise fun x y => key x ≤ key y)
    (hk : ∀ x ∈ l, k ≤ key x ∧ key x < k + n) :
    l = (List.range' k n).flatMap fun i => l.filter (key · = i) := by
  induction n generalizing k l with
  | zero =>
    have hnil : l = [] := by
      rw [List.eq_nil_iff_forall_not_mem]
      intro x hx
      have hx' := hk x hx
      omega
    rw [hnil]
    rfl
  | succ n ih =>
    have hrest := ih (k := k + 1) (l := l.filter (key · ≠ k))
      (hsorted.sublist List.filter_sublist) (by
        intro x hx
        obtain ⟨hx, hne⟩ := List.mem_filter.mp hx
        have hne' : key x ≠ k := by simpa using hne
        have hx' := hk x hx
        omega)
    have hparts : ((List.range' (k + 1) n).flatMap fun i =>
        (l.filter (key · ≠ k)).filter (key · = i)) =
        (List.range' (k + 1) n).flatMap fun i => l.filter (key · = i) := by
      refine List.flatMap_congr fun i hi => ?_
      rw [List.filter_filter]
      refine List.filter_congr fun x _ => ?_
      have hki : k + 1 ≤ i := (List.mem_range'_1.mp hi).1
      by_cases hx : key x = i
      · have hne : key x ≠ k := by omega
        simp [hx, hx ▸ hne]
      · simp [hx]
    rw [List.range'_succ, List.flatMap_cons, ← hparts, ← hrest]
    exact eq_filter_append_filter hsorted fun x hx => (hk x hx).1

theorem key_le_trans (key : α → Nat) (x y z : α) (hxy : decide (key x ≤ key y) = true)
    (hyz : decide (key y ≤ key z) = true) : decide (key x ≤ key z) = true := by
  rw [decide_eq_true_eq] at *
  omega

theorem key_le_total (key : α → Nat) (x y : α) :
    (decide (key x ≤ key y) || decide (key y ≤ key x)) = true := by
  rw [Bool.or_eq_true, decide_eq_true_eq, decide_eq_true_eq]
  omega

/-- Sorting by a key is stable: it leaves the elements with one key in their order. -/
theorem filter_mergeSort (l : List α) (k : Nat) :
    (l.mergeSort fun x y => key x ≤ key y).filter (key · = k) = l.filter (key · = k) := by
  induction l with
  | nil => rw [List.mergeSort_nil]
  | cons a l ih =>
    obtain ⟨before, after, hcons, hl, hbefore⟩ :=
      List.mergeSort_cons (key_le_trans key) (key_le_total key) a l
    rw [hl, List.filter_append] at ih
    rw [hcons, List.filter_append, List.filter_cons, List.filter_cons]
    by_cases hak : key a = k
    · have hnone : before.filter (key · = k) = [] := by
        rw [List.filter_eq_nil_iff]
        intro x hx
        have hlt := hbefore x hx
        simp only [Bool.not_eq_true', decide_eq_false_iff_not] at hlt
        have hne : key x ≠ k := by omega
        simpa using hne
      rw [hnone, List.nil_append] at ih
      rw [hnone, List.nil_append, ih]
    · simpa [hak] using ih

end Key

/-! ## Sites -/

structure Site where
  /-- The names of the gates around the gate, from the root down. -/
  around : List String
  name : String
  definition : Definition

namespace Site

def depth (x : Site) : Nat := x.around.length

/-- The names from the root down to the gate. -/
def trail (x : Site) : List String := x.around ++ [x.name]

def path (x : Site) : String := "/".intercalate x.trail

def ofSiblings (around : List String) (siblings : List (String × Definition)) : List Site :=
  siblings.map fun entry => ⟨around, entry.1, entry.2⟩

/-- The sites right inside a site. -/
def children (x : Site) : List Site := ofSiblings x.trail x.definition.children

end Site

mutual
def Definition.sites (around : List String) : Definition → List Site
  | ⟨_, _, children⟩ => Definition.sitesBelow around children

/-- The sites of siblings and of all gates inside them, in document order. -/
def Definition.sitesBelow (around : List String) : List (String × Definition) → List Site
  | [] => []
  | (name, definition) :: rest =>
    ⟨around, name, definition⟩ ::
      (definition.sites (around ++ [name]) ++ Definition.sitesBelow around rest)
end

/-- The sites of a document, in document order. -/
def Document.sites (d : Document) : List Site := Definition.sitesBelow [] d.gates

/-- The sites of a document by depth, and in document order where the depth is the same. -/
def Document.sitesByDepth (d : Document) : List Site :=
  d.sites.mergeSort fun x y => x.depth ≤ y.depth

namespace Definition

mutual
theorem children_induction {P : List (String × Definition) → Prop} (hnil : P [])
    (hcons : ∀ name (d : Definition) rest, P d.children → P rest → P ((name, d) :: rest)) :
    ∀ d : Definition, P d.children
  | ⟨_, _, children⟩ => siblings_induction hnil hcons children

/-- Induction over siblings: a gate is taken after the gates inside it. -/
theorem siblings_induction {P : List (String × Definition) → Prop} (hnil : P [])
    (hcons : ∀ name (d : Definition) rest, P d.children → P rest → P ((name, d) :: rest)) :
    ∀ siblings, P siblings
  | [] => hnil
  | (name, d) :: rest =>
    hcons name d rest (children_induction hnil hcons d) (siblings_induction hnil hcons rest)
end

theorem sitesBelow_cons (around : List String) (name : String) (d : Definition)
    (rest : List (String × Definition)) :
    sitesBelow around ((name, d) :: rest) =
      ⟨around, name, d⟩ ::
        (sitesBelow (around ++ [name]) d.children ++ sitesBelow around rest) := by
  cases d
  rfl

theorem heights_cons (name : String) (d : Definition) (rest : List (String × Definition)) :
    heights ((name, d) :: rest) = max (heights d.children + 1) (heights rest) := by
  cases d
  rfl

theorem depth_of_mem_sitesBelow {siblings : List (String × Definition)} {around : List String}
    {x : Site} (hx : x ∈ sitesBelow around siblings) :
    around.length ≤ x.depth ∧ x.depth < around.length + heights siblings := by
  induction siblings using siblings_induction generalizing around with
  | hnil => cases hx
  | hcons name d rest ihd ihrest =>
    rw [sitesBelow_cons] at hx
    rw [heights_cons]
    rcases List.mem_cons.mp hx with rfl | hx
    · show around.length ≤ around.length ∧ around.length < _
      omega
    · rcases List.mem_append.mp hx with hx | hx
      · have hin := ihd hx
        rw [List.length_append, List.length_singleton] at hin
        omega
      · have hin := ihrest hx
        omega

theorem filter_sitesBelow_eq_nil {siblings : List (String × Definition)} {around : List String}
    {n : Nat} (hn : n < around.length) :
    (sitesBelow around siblings).filter (·.depth = n) = [] := by
  rw [List.filter_eq_nil_iff]
  intro x hx
  have hdepth := (depth_of_mem_sitesBelow hx).1
  have hne : x.depth ≠ n := by omega
  simpa using hne

/-- The level of the siblings themselves. -/
theorem filter_sitesBelow_self (siblings : List (String × Definition)) (around : List String) :
    (sitesBelow around siblings).filter (·.depth = around.length) =
      Site.ofSiblings around siblings := by
  induction siblings with
  | nil => rfl
  | cons entry rest ih =>
    obtain ⟨name, d⟩ := entry
    have hinner : (sitesBelow (around ++ [name]) d.children).filter
        (·.depth = around.length) = [] := filter_sitesBelow_eq_nil (by simp)
    rw [sitesBelow_cons, List.filter_cons, List.filter_append, hinner, List.nil_append, ih]
    simp [Site.depth, Site.ofSiblings]

/-- Every level below consists of what is right inside the level above it. -/
theorem filter_sitesBelow_succ (siblings : List (String × Definition)) {around : List String}
    {n : Nat} (hn : around.length ≤ n) :
    (sitesBelow around siblings).filter (·.depth = n + 1) =
      ((sitesBelow around siblings).filter (·.depth = n)).flatMap Site.children := by
  induction siblings using siblings_induction generalizing around with
  | hnil => rfl
  | hcons name d rest ihd ihrest =>
    rw [sitesBelow_cons, List.filter_cons, List.filter_cons, List.filter_append,
      List.filter_append, ihrest hn]
    have hlen : (around ++ [name]).length = around.length + 1 := by simp
    -- Level `n` is inside the first sibling, or it is the level of the siblings.
    rcases Nat.lt_or_ge around.length n with hlt | hge
    · have hinside : (around ++ [name]).length ≤ n := by omega
      have hd := ihd hinside
      have hne : around.length ≠ n + 1 := by omega
      have hne' : around.length ≠ n := by omega
      simp [Site.depth, hne, hne'] at hd ⊢
      exact hd
    · have he : n = around.length := by omega
      have hinner : (sitesBelow (around ++ [name]) d.children).filter (·.depth = n) = [] :=
        filter_sitesBelow_eq_nil (by omega)
      have hself := filter_sitesBelow_self d.children (around ++ [name])
      rw [hlen, ← he] at hself
      rw [hinner, hself]
      simp [Site.depth, he, Site.children, Site.trail]

end Definition

namespace Document

theorem filter_sitesByDepth (d : Document) (n : Nat) :
    d.sitesByDepth.filter (·.depth = n) = d.sites.filter (·.depth = n) :=
  filter_mergeSort d.sites n

/-- The sites by depth are the levels of the document one after another, and beyond its last level
nothing comes. -/
theorem sitesByDepth_eq_flatMap (d : Document) {n : Nat} (hn : ∀ x ∈ d.sites, x.depth < n) :
    d.sitesByDepth = (List.range n).flatMap fun i => d.sites.filter (·.depth = i) := by
  have hsorted : d.sitesByDepth.Pairwise fun x y => x.depth ≤ y.depth := by
    have h := List.pairwise_mergeSort (key_le_trans Site.depth) (key_le_total Site.depth) d.sites
    exact h.imp fun hxy => of_decide_eq_true hxy
  have hbound : ∀ x ∈ d.sitesByDepth, 0 ≤ x.depth ∧ x.depth < 0 + n := by
    intro x hx
    have hlt := hn x (List.mem_mergeSort.mp hx)
    omega
  have hlevels := eq_flatMap_filter hsorted hbound
  simp only [filter_sitesByDepth, ← List.range_eq_range'] at hlevels
  exact hlevels

theorem depth_lt_heights (d : Document) : ∀ x ∈ d.sites, x.depth < Definition.heights d.gates := by
  intro x hx
  have hbound := (Definition.depth_of_mem_sitesBelow hx).2
  rwa [List.length_nil, Nat.zero_add] at hbound

theorem sitesByDepth_eq_levels (d : Document) :
    d.sitesByDepth = (List.range (Definition.heights d.gates)).flatMap fun n =>
      d.sites.filter (·.depth = n) :=
  d.sitesByDepth_eq_flatMap d.depth_lt_heights

end Document
end FeatureGates
