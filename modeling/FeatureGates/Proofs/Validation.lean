import FeatureGates.Proofs.Flattening

/-!
Which documents are accepted, and what is said about the others.

`Document.faults` lists everything that is wrong with a document, in the order in which it matters:
the names at the top, and then for every gate, level by level, its rollouts and the names right
inside it.  A document is valid if the list is empty; otherwise its first entry is the answer.
-/

namespace FeatureGates

/-- Not empty, and made of ASCII letters, digits, underscores, points and hyphens. -/
def WellFormedName (name : String) : Prop :=
  name ≠ "" ∧ ∀ c ∈ name.toList, ('A' ≤ c ∧ c ≤ 'Z') ∨ ('a' ≤ c ∧ c ≤ 'z') ∨
    ('0' ≤ c ∧ c ≤ '9') ∨ c = '_' ∨ c = '.' ∨ c = '-'

instance (name : String) : Decidable (WellFormedName name) :=
  inferInstanceAs (Decidable (_ ∧ _))

/-- Names that may stand beside each other. -/
structure ValidSiblings (siblings : List (String × Definition)) : Prop where
  wellFormed : ∀ entry ∈ siblings, WellFormedName entry.1
  distinct : siblings.Pairwise fun a b => Text.fold a.1 ≠ Text.fold b.1

structure Document.Valid (d : Document) : Prop where
  top : ValidSiblings d.gates
  inside : ∀ x ∈ d.sites, ValidSiblings x.definition.children
  exposure : ∀ x ∈ d.sites, ∀ percentage,
    .condition (.rollout percentage) ∈ x.definition.filters → percentage ≤ 100

/-! ## Faults in their order -/

/-- What is wrong with a name inside the gates `around`, after the siblings `earlier`. -/
def nameFault (around : List String) (earlier : List (String × Definition)) (name : String) :
    Option DocumentFault :=
  let path := "/".intercalate (around ++ [name])
  if ¬WellFormedName name then some (.invalidName name path)
  else if ∃ entry ∈ earlier, Text.fold entry.1 = Text.fold name then some (.duplicate name path)
  else none

def nameFaults (around : List String) (siblings : List (String × Definition)) :
    List DocumentFault :=
  siblings.zipIdx.filterMap fun q => nameFault around (siblings.take q.2) q.1.1

def exposureFault (path : String) : Filter → Option DocumentFault
  | .condition (.rollout percentage) =>
    if 100 < percentage then some (.exposure path percentage) else none
  | _ => none

def Site.exposureFaults (x : Site) : List DocumentFault :=
  x.definition.filters.filterMap (exposureFault x.path)

def Site.faults (x : Site) : List DocumentFault :=
  x.exposureFaults ++ nameFaults x.trail x.definition.children

def Document.faults (d : Document) : List DocumentFault :=
  nameFaults [] d.gates ++ d.sitesByDepth.flatMap Site.faults

/-! ## Documents without faults -/

theorem nameFault_eq_none_iff {around : List String} {earlier : List (String × Definition)}
    {name : String} :
    nameFault around earlier name = none ↔
      WellFormedName name ∧ ∀ entry ∈ earlier, Text.fold entry.1 ≠ Text.fold name := by
  rw [nameFault]
  by_cases hname : WellFormedName name
  · by_cases hearlier : ∃ entry ∈ earlier, Text.fold entry.1 = Text.fold name
    · rw [if_neg (not_not.mpr hname), if_pos hearlier]
      obtain ⟨entry, hentry, hsame⟩ := hearlier
      exact iff_of_false (by simp) fun hnone => hnone.2 entry hentry hsame
    · rw [if_neg (not_not.mpr hname), if_neg hearlier]
      push Not at hearlier
      exact iff_of_true rfl ⟨hname, hearlier⟩
  · simp [hname]

theorem nameFaults_eq_nil_iff {around : List String} {siblings : List (String × Definition)} :
    nameFaults around siblings = [] ↔ ValidSiblings siblings := by
  rw [nameFaults, List.filterMap_eq_nil_iff]
  constructor
  · intro hnone
    have hat : ∀ i (hi : i < siblings.length), WellFormedName siblings[i].1 ∧
        ∀ entry ∈ siblings.take i, Text.fold entry.1 ≠ Text.fold siblings[i].1 := by
      intro i hi
      exact nameFault_eq_none_iff.mp (hnone (siblings[i], i)
        (List.mem_zipIdx_iff_getElem?.mpr (List.getElem?_eq_getElem hi)))
    refine ⟨fun entry hentry => ?_, List.pairwise_iff_getElem.mpr fun i j hi hj hij => ?_⟩
    · obtain ⟨i, hi, rfl⟩ := List.mem_iff_getElem.mp hentry
      exact (hat i hi).1
    · refine (hat j hj).2 siblings[i] ?_
      exact List.mem_take_iff_getElem.mpr ⟨i, by omega, rfl⟩
  · rintro ⟨hwell, hdistinct⟩ ⟨entry, i⟩ hentry
    obtain ⟨hi, rfl⟩ := List.getElem?_eq_some_iff.mp (List.mk_mem_zipIdx_iff_getElem?.mp hentry)
    refine nameFault_eq_none_iff.mpr ⟨hwell _ (List.getElem_mem hi), fun e he => ?_⟩
    obtain ⟨j, hj, rfl⟩ := List.mem_take_iff_getElem.mp he
    exact List.pairwise_iff_getElem.mp hdistinct j i (by omega) hi (by omega)

theorem Site.exposureFaults_eq_nil_iff {x : Site} :
    x.exposureFaults = [] ↔ ∀ percentage,
      .condition (.rollout percentage) ∈ x.definition.filters → percentage ≤ 100 := by
  rw [exposureFaults, List.filterMap_eq_nil_iff]
  constructor
  · intro hnone percentage hmem
    have hfilter := hnone _ hmem
    simpa [exposureFault] using hfilter
  · intro hall f hf
    rw [exposureFault.eq_def]
    split
    · rename_i percentage
      have hle := hall percentage hf
      rw [if_neg (by omega)]
    · rfl

theorem Document.faults_eq_nil_iff {d : Document} : d.faults = [] ↔ d.Valid := by
  have hsites : ∀ x, x ∈ d.sitesByDepth ↔ x ∈ d.sites := fun x => List.mem_mergeSort
  rw [faults, List.append_eq_nil_iff, List.flatMap_eq_nil_iff, nameFaults_eq_nil_iff]
  constructor
  · rintro ⟨htop, hin⟩
    refine ⟨htop, fun x hx => ?_, fun x hx => ?_⟩
    · exact nameFaults_eq_nil_iff.mp (List.append_eq_nil_iff.mp (hin x ((hsites x).mpr hx))).2
    · exact Site.exposureFaults_eq_nil_iff.mp
        (List.append_eq_nil_iff.mp (hin x ((hsites x).mpr hx))).1
  · rintro ⟨htop, hin, hexposure⟩
    refine ⟨htop, fun x hx => ?_⟩
    have hx' := (hsites x).mp hx
    exact List.append_eq_nil_iff.mpr ⟨Site.exposureFaults_eq_nil_iff.mpr (hexposure x hx'),
      nameFaults_eq_nil_iff.mpr (hin x hx')⟩

/-! ## The first fault -/

namespace Hierarchy

theorem isNameChar_iff {c : Char} : isNameChar c = true ↔
    ('A' ≤ c ∧ c ≤ 'Z') ∨ ('a' ≤ c ∧ c ≤ 'z') ∨ ('0' ≤ c ∧ c ≤ '9') ∨
      c = '_' ∨ c = '.' ∨ c = '-' := by
  have hrange : ∀ a b : Char, decide (c.val ≥ a.val) && decide (c.val ≤ b.val) ↔ a ≤ c ∧ c ≤ b := by
    intro a b
    rw [Bool.and_eq_true, decide_eq_true_eq, decide_eq_true_eq]
    rfl
  have hupper : c.isUpper = true ↔ 'A' ≤ c ∧ c ≤ 'Z' := decide_eq_true_iff
  have hlower : c.isLower = true ↔ 'a' ≤ c ∧ c ≤ 'z' := hrange 'a' 'z'
  have hdigit : c.isDigit = true ↔ '0' ≤ c ∧ c ≤ '9' := hrange '0' '9'
  show (((c.isUpper || c.isLower || c.isDigit) || decide (c = '_') || decide (c = '.')) ||
    decide (c = '-')) = true ↔ _
  simp only [Bool.or_eq_true, decide_eq_true_eq, hupper, hlower, hdigit, or_assoc]

theorem isValidName_iff {name : String} : isValidName name = true ↔ WellFormedName name := by
  rw [isValidName, WellFormedName, Bool.and_eq_true, List.all_eq_true]
  refine and_congr ?_ (forall₂_congr fun c _ => isNameChar_iff)
  rw [Bool.not_eq_true', List.isEmpty_eq_false_iff, ne_eq, ne_eq, String.toList_eq_nil_iff]

section

/- `container` stands for the gates `around`, and `met` for the names of the siblings `before`. -/
variable {container : Option String} {around : List String}
  (hpath : ∀ name, Placement.pathBelow container name = "/".intercalate (around ++ [name]))
  {before : List (String × Definition)} {met : List String}
  (hmet : ∀ key, key ∈ met ↔ ∃ entry ∈ before, Text.fold entry.1 = key)
include hpath hmet

theorem nameFault?_cons (name : String) (d : Definition) (rest : List (String × Definition)) :
    nameFault? container met ((name, d) :: rest) =
      (nameFault around before name).or (nameFault? container (Text.fold name :: met) rest) := by
  have hvalid : (!isValidName name) = true ↔ ¬WellFormedName name := by
    rw [← isValidName_iff, Bool.not_eq_true', Bool.not_eq_true]
  have hmet' : met.contains (Text.fold name) = true ↔
      ∃ entry ∈ before, Text.fold entry.1 = Text.fold name := by
    rw [List.contains_iff_mem, hmet]
  simp only [nameFault?, nameFault, hvalid, hmet', hpath]
  split
  · rfl
  · split <;> rfl

theorem nameFault?_eq_findSome? (rest : List (String × Definition)) :
    nameFault? container met rest =
      (rest.zipIdx before.length).findSome? fun q =>
        nameFault around ((before ++ rest).take q.2) q.1.1 := by
  induction rest generalizing before met with
  | nil => rfl
  | cons entry rest ih =>
    obtain ⟨name, d⟩ := entry
    have hmet' : ∀ key, key ∈ Text.fold name :: met ↔
        ∃ entry ∈ before ++ [(name, d)], Text.fold entry.1 = key := by
      intro key
      rw [List.mem_cons, hmet key]
      simp [or_comm, eq_comm, List.mem_append, or_and_right, exists_or]
    have hnext := ih hmet'
    rw [List.append_assoc, List.singleton_append, List.length_append, List.length_singleton]
      at hnext
    rw [nameFault?_cons hpath hmet, hnext, List.zipIdx_cons, List.findSome?_cons, List.take_left]
    cases nameFault around before name <;> rfl

end

/-- The first fault among the names of siblings is found. -/
theorem nameFault?_eq {container : Option String} {around : List String}
    (hpath : ∀ name, Placement.pathBelow container name = "/".intercalate (around ++ [name]))
    (siblings : List (String × Definition)) :
    nameFault? container [] siblings = (nameFaults around siblings).head? := by
  have hmet : ∀ key, key ∈ ([] : List String) ↔
      ∃ entry ∈ ([] : List (String × Definition)), Text.fold entry.1 = key := by simp
  rw [nameFault?_eq_findSome? hpath hmet, nameFaults, List.head?_filterMap]
  rfl

theorem exposureFault?_cons (path : String) (f : Filter) (rest : List Filter) :
    exposureFault? path (f :: rest) =
      (exposureFault path f).or (exposureFault? path rest) := by
  cases f with
  | parent name => rfl
  | condition c =>
    cases c with
    | rollout percentage =>
      by_cases hp : 100 < percentage
      · simp [exposureFault?, exposureFault, Filter.exposure?, Rollout.buckets, hp]
      · simp [exposureFault?, exposureFault, Filter.exposure?, Rollout.buckets, hp]
    | _ => rfl

/-- The first fault of a rollout is found. -/
theorem exposureFault?_eq (x : Site) :
    exposureFault? x.path x.definition.filters = x.exposureFaults.head? := by
  rw [Site.exposureFaults, List.head?_filterMap]
  induction x.definition.filters with
  | nil => rfl
  | cons f rest ih =>
    rw [exposureFault?_cons, ih, List.findSome?_cons]
    cases exposureFault x.path f <;> rfl

/-! ## Gates in turn -/

/-- What is wrong with a gate, by its entry. -/
def firstFault (e : String × String × Definition) : Option DocumentFault :=
  (exposureFault? e.2.1 e.2.2.filters).or (nameFault? (some e.2.1) [] e.2.2.children)

theorem firstFault_eq (x : Site) : firstFault x.entry = x.faults.head? := by
  have hpath : ∀ name, Placement.pathBelow (some x.path) name =
      "/".intercalate (x.trail ++ [name]) := fun name => (x.path_inside name {}).symm
  rw [Site.faults, List.head?_append, ← exposureFault?_eq, ← nameFault?_eq hpath]
  rfl

theorem answer_inspect (h : Hierarchy) (l : List (Gate × Placement)) :
    (h.inspect l).answer = l.findSome? fun q =>
      (exposureFault? q.1.path q.1.filters).or
        (nameFault? (some q.1.path) [] q.2.definition.children) := by
  induction l with
  | nil => rfl
  | cons q rest ih =>
    obtain ⟨g, p⟩ := q
    rw [List.findSome?_cons, ← ih, inspect]
    cases exposureFault? g.path g.filters with
    | some fault => rfl
    | none =>
      simp only [Noted.answer_bind]
      cases nameFault? (some g.path) [] p.definition.children <;> rfl

theorem findSome?_zip_number {α : Type} {f : Gate × Placement → Option α}
    {e : Placement → Option α} (hf : ∀ p i c, f (p.toGate i c, p) = e p) (id firstChild : Nat)
    (l : List Placement) :
    ((Placement.number id firstChild l).zip l).findSome? f = l.findSome? e := by
  induction l generalizing id firstChild with
  | nil => rfl
  | cons p rest ih =>
    rw [Placement.number, List.zip_cons_cons, List.findSome?_cons, List.findSome?_cons, hf, ih]

theorem answer_ofDocument (d : Document) :
    (ofDocument d).answer =
      match d.faults.head? with
      | some fault => .error fault
      | none => .ok { gates := d.toGates } := by
  have htop : nameFault? none [] d.gates = (nameFaults [] d.gates).head? :=
    nameFault?_eq (fun name => by simp [Placement.pathBelow]) d.gates
  have hgates : ((d.toGates.zip (Placement.ofDocument d)).findSome? fun q =>
      (exposureFault? q.1.path q.1.filters).or
        (nameFault? (some q.1.path) [] q.2.definition.children)) =
      (d.sitesByDepth.flatMap Site.faults).head? := by
    rw [Document.toGates, findSome?_zip_number (e := firstFault ∘ Placement.entry)
      (fun _ _ _ => rfl), ← List.findSome?_map, Placement.map_entry_ofDocument,
      List.findSome?_map, List.head?_flatMap]
    exact congrArg (d.sitesByDepth.findSome? ·) (funext firstFault_eq)
  rw [Document.faults, List.head?_append, ← htop, ← hgates, ofDocument]
  cases nameFault? none [] d.gates with
  | some fault => rfl
  | none =>
    simp only [Noted.answer_map, answer_inspect]
    rfl

theorem exists_ok_iff (d : Document) : (∃ h, (ofDocument d).answer = .ok h) ↔ d.Valid := by
  rw [← Document.faults_eq_nil_iff, answer_ofDocument]
  cases d.faults <;> simp

theorem Loaded.of_valid {h : Hierarchy} {d : Document} (hd : h.gates = d.toGates)
    (hvalid : d.Valid) : h.Loaded := by
  refine ⟨d, ?_⟩
  rw [answer_ofDocument, Document.faults_eq_nil_iff.mpr hvalid, hd]
  rfl

theorem Loaded.exists_valid {h : Hierarchy} (hl : h.Loaded) :
    ∃ d : Document, h.gates = d.toGates ∧ d.Valid := by
  obtain ⟨d, hd⟩ := hl
  exact ⟨d, gates_of_ofDocument (h := { h with version := 0 }) hd, (exists_ok_iff d).mp ⟨_, hd⟩⟩

/-- A document is accepted just when it is valid, and otherwise its first fault is reported. -/
theorem ofDocument_reports_first_fault (d : Document) :
    ((∃ h, (ofDocument d).answer = .ok h) ↔ d.Valid) ∧
      ∀ fault, (ofDocument d).answer = .error fault ↔ d.faults.head? = some fault := by
  refine ⟨exists_ok_iff d, fun fault => ?_⟩
  rw [answer_ofDocument]
  cases d.faults <;> simp

/- The names inside the first gate come before the rollouts of the second. -/
example :
    (ofDocument ⟨[("a", { children := [("b", {}), ("c d", {})] }),
      ("e", { filters := [.condition (.rollout 101)] })]⟩).answer =
      .error (.invalidName "c d" "a/c d") := rfl

end Hierarchy
end FeatureGates
