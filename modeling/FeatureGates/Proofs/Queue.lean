import FeatureGates.Proofs.Folding
import FeatureGates.Proofs.Paths
import Mathlib.Algebra.GroupWithZero.Nat

/-!
Loading gate by gate.

`Hierarchy.ofDocument` puts the gates of a document down level by level and looks at each of them
afterwards.  A loader that has not seen the document before works from a queue instead: it takes the
first definition, checks its rollouts, enters it in an index by name unless the name is known, tells
its container of it, checks the names right inside it, and puts these at the end of the queue.  The
two are the same, in their answers, in what they notice, and in what is then found by name.

The invariant of the loop is `Draft.Holds`.  After `n` gates the draft has the first `n` gates of
the document, each of which lists those inside it that have numbers below `n`, and the index has the
first of them for every name.  What is waiting is known by then as well (`waiting`).  At the end the
roots and the children that the draft has stored are all of them (`Draft.Flattens`), so that the
document can be read off it.
-/

namespace FeatureGates

theorem Definition.length_sitesBelow (around around' : List String)
    (siblings : List (String × Definition)) :
    (sitesBelow around siblings).length = (sitesBelow around' siblings).length := by
  have hmap := congrArg List.length (map_sitesBelow around around' siblings)
  rwa [List.length_map, List.length_map] at hmap

/-- A gate that lists one gate more. -/
def Gate.addChild (id : Nat) (g : Gate) : Gate := { g with children := g.children ++ [id] }

/-- A hierarchy while its gates are put down one after another. -/
structure Draft where
  gates : List Gate
  roots : List Nat
  /-- The number of a gate for every folded name. -/
  index : Directory Nat

namespace Draft

def empty : Draft := ⟨[], [], Directory.empty⟩

def named? (s : Draft) (name : String) : Option Gate :=
  (s.index.find? (Text.fold name)).bind (s.gates[·]?)

/-- Notices that the name of the next gate is known. -/
def noteKnown (s : Draft) (p : Placement) : Noted Unit :=
  match s.named? p.name with
  | some first => note (.shadowed p.path first.path)
  | none => pure ()

/-- Puts the next gate down.  The gates inside it come later. -/
def add (s : Draft) (p : Placement) : Draft where
  gates :=
    (match p.container with
      | some c => s.gates.modify c (Gate.addChild s.gates.length)
      | none => s.gates) ++ [{ p.toGate s.gates.length 0 with children := [] }]
  roots :=
    match p.container with
    | some _ => s.roots
    | none => s.roots ++ [s.gates.length]
  index :=
    match s.index.find? (Text.fold p.name) with
    | some _ => s.index
    | none => s.index.insert (Text.fold p.name) s.gates.length

/-- The definitions of a queue, with all that is inside them. -/
def pending (queue : List Placement) : Nat :=
  (queue.map fun p => (Definition.sitesBelow [] p.definition.children).length + 1).sum

theorem pending_children (p : Placement) (id : Nat) :
    pending (p.children id) = (Definition.sitesBelow [] p.definition.children).length := by
  rw [pending, Placement.children, Placement.ofSiblings, List.map_map]
  induction p.definition.children with
  | nil => rfl
  | cons entry rest ih =>
    obtain ⟨name, d⟩ := entry
    rw [Definition.sitesBelow_cons, List.length_cons, List.length_append,
      Definition.length_sitesBelow _ [], List.map_cons, List.sum_cons, ih]
    show (Definition.sitesBelow [] d.children).length + 1 + _ = _
    omega

theorem pending_lt (p : Placement) (rest : List Placement) (id : Nat) :
    pending (rest ++ p.children id) < pending (p :: rest) := by
  have hchildren := pending_children p id
  simp only [pending, List.map_append, List.sum_append, List.map_cons, List.sum_cons] at *
  omega

/-- Takes gates from the queue until it is empty or a fault is met. -/
def run (queue : List Placement) (s : Draft) : Noted (Except DocumentFault Draft) :=
  match queue with
  | [] => pure (.ok s)
  | p :: rest =>
    match Hierarchy.exposureFault? p.path p.definition.filters with
    | some fault => pure (.error fault)
    | none => do
      s.noteKnown p
      match Hierarchy.nameFault? (some p.path) [] p.definition.children with
      | some fault => pure (.error fault)
      | none => run (rest ++ p.children s.gates.length) (s.add p)
termination_by pending queue
decreasing_by exact pending_lt p rest s.gates.length

/-- The draft of a document, if the document is valid. -/
def ofDocument (d : Document) : Noted (Except DocumentFault Draft) :=
  match Hierarchy.nameFault? none [] d.gates with
  | some fault => pure (.error fault)
  | none => run (Placement.ofSiblings none d.gates) empty

end Draft

/-! ## What is waiting -/

namespace Placement

/-- What is at the top and inside the first `n` gates. -/
def seen (d : Document) (n : Nat) : List Placement :=
  ofSiblings none d.gates ++ ((ofDocument d).take n).zipIdx.flatMap fun q => q.1.children q.2

/-- The queue after `n` gates. -/
def waiting (d : Document) (n : Nat) : List Placement := (seen d n).drop n

variable {d : Document} {n : Nat} {p : Placement}

theorem seen_succ (hp : (ofDocument d)[n]? = some p) :
    seen d (n + 1) = seen d n ++ p.children n := by
  have hn := (List.getElem?_eq_some_iff.mp hp).1
  have hlen : ((ofDocument d).take n).length = n := List.length_take_of_le (Nat.le_of_lt hn)
  rw [seen, List.take_add_one, hp, Option.toList_some, List.zipIdx_append, List.flatMap_append,
    hlen, Nat.zero_add, seen, List.append_assoc]
  simp

/-- Since containers come first, the next gate has been seen. -/
theorem getElem?_seen (hp : (ofDocument d)[n]? = some p) : (seen d n)[n]? = some p := by
  have hn := (List.getElem?_eq_some_iff.mp hp).1
  have hlen : ((ofDocument d).take n).length = n := List.length_take_of_le (Nat.le_of_lt hn)
  have heq := ofDocument_eq d
  conv_rhs at heq => rw [← List.take_append_drop n (ofDocument d), List.zipIdx_append, hlen,
    Nat.zero_add, List.flatMap_append, ← List.append_assoc]
  rcases Nat.lt_or_ge n (seen d n).length with hlt | hge
  · rw [← hp, heq]
    exact (List.getElem?_append_left hlt).symm
  · have hlater := hp
    rw [heq] at hlater
    replace hlater := List.mem_of_getElem? ((List.getElem?_append_right hge).symm.trans hlater)
    obtain ⟨⟨q, c⟩, hq, hinside⟩ := List.mem_flatMap.mp hlater
    have hle := List.le_snd_of_mem_zipIdx hq
    have hlt := container_lt hp (of_mem_children hinside).2.1
    omega

theorem waiting_eq_cons (hp : (ofDocument d)[n]? = some p) :
    waiting d n = p :: (seen d n).drop (n + 1) := by
  obtain ⟨hn, hpn⟩ := List.getElem?_eq_some_iff.mp (getElem?_seen hp)
  rw [waiting, List.drop_eq_getElem_cons hn, hpn]

theorem waiting_succ (hp : (ofDocument d)[n]? = some p) :
    waiting d (n + 1) = (seen d n).drop (n + 1) ++ p.children n := by
  have hn := (List.getElem?_eq_some_iff.mp (getElem?_seen hp)).1
  rw [waiting, seen_succ hp, List.drop_append_of_le_length hn]

theorem waiting_zero (d : Document) : waiting d 0 = ofSiblings none d.gates := by
  simp [waiting, seen]

theorem waiting_length (d : Document) : waiting d (ofDocument d).length = [] := by
  have hseen : seen d (ofDocument d).length = ofDocument d := by
    rw [seen, List.take_length]
    exact (ofDocument_eq d).symm
  rw [waiting, hseen, List.drop_length]

end Placement

/-! ## One gate -/

/-- A gate with those inside it that have numbers below `n`. -/
def Gate.before (n : Nat) (g : Gate) : Gate := { g with children := g.children.filter (· < n) }

theorem filter_lt_range'_succ (first count n : Nat) :
    (List.range' first count).filter (· < n + 1) =
      (List.range' first count).filter (· < n) ++
        if first ≤ n ∧ n < first + count then [n] else [] := by
  induction count with
  | zero => rw [if_neg (by omega : ¬(first ≤ n ∧ n < first + 0))]; rfl
  | succ count ih =>
    have hlast : ∀ m, [first + count].filter (· < m) =
        if first + count < m then [first + count] else [] := by
      intro m
      by_cases hm : first + count < m <;> simp [hm]
    rw [List.range'_1_concat, List.filter_append, List.filter_append, ih, hlast, hlast]
    rcases Nat.lt_trichotomy (first + count) n with hlt | heq | hgt
    · rw [if_neg (by omega : ¬(first ≤ n ∧ n < first + count)), if_pos (by omega), if_pos hlt,
        if_neg (by omega), List.append_nil, List.append_nil]
    · rw [if_neg (by omega : ¬(first ≤ n ∧ n < first + count)), if_pos (by omega), if_neg (by omega),
        if_pos (by omega), List.append_nil, heq]
    · rw [if_neg (by omega : ¬first + count < n + 1), if_neg (by omega : ¬first + count < n),
        List.append_nil, List.append_nil]
      exact congrArg _ (if_congr (by omega) rfl rfl)

namespace Draft

/-- The draft of a document after `n` gates. -/
structure Holds (d : Document) (n : Nat) (s : Draft) : Prop where
  gates : s.gates = (d.toGates.take n).map (Gate.before n)
  roots : s.roots = ((d.toGates.take n).filter (·.container.isNone)).map (·.id)
  /-- The first gate with a name is the one in the index. -/
  index : ∀ key, s.index.find? key = (d.toGates.take n).findIdx? (·.key = key)

theorem holds_empty (d : Document) : empty.Holds d 0 := ⟨rfl, rfl, fun _ => rfl⟩

section Step

open Placement

variable {d : Document} {n : Nat} {p : Placement} {s : Draft}

theorem getElem?_toGates (d : Document) (i : Nat) :
    d.toGates[i]? = (Placement.ofDocument d)[i]?.map fun p => p.toGate i (firstInside d i) :=
  gate?_eq (h := { gates := d.toGates }) rfl i

theorem take_toGates_succ (hp : (Placement.ofDocument d)[n]? = some p) :
    d.toGates.take (n + 1) = d.toGates.take n ++ [p.toGate n (firstInside d n)] := by
  rw [List.take_add_one, getElem?_toGates, hp]
  rfl

theorem drop_zip_toGates (hp : (Placement.ofDocument d)[n]? = some p) :
    (d.toGates.zip (Placement.ofDocument d)).drop n =
      (p.toGate n (firstInside d n), p) ::
        (d.toGates.zip (Placement.ofDocument d)).drop (n + 1) := by
  have hpair : (d.toGates.zip (Placement.ofDocument d))[n]? =
      some (p.toGate n (firstInside d n), p) := by
    rw [List.getElem?_zip_eq_some, getElem?_toGates, hp]
    exact ⟨rfl, rfl⟩
  obtain ⟨hlen, hpair⟩ := List.getElem?_eq_some_iff.mp hpair
  rw [List.drop_eq_getElem_cons hlen, hpair]

/-- One gate more is listed by its container, and by no other gate. -/
theorem before_succ {i : Nat} {g : Gate} (hp : (Placement.ofDocument d)[n]? = some p)
    (hg : d.toGates[i]? = some g) :
    g.before (n + 1) =
      if p.container = some i then (g.before n).addChild n else g.before n := by
  rw [getElem?_toGates] at hg
  obtain ⟨q, hq, rfl⟩ := Option.map_eq_some_iff.mp hg
  have hchildren := filter_lt_range'_succ (firstInside d i) q.definition.children.length n
  rw [if_congr (container_eq_iff hq hp) rfl rfl, Gate.before]
  show Gate.mk _ _ _ _ _ _ _ _ ((List.range' _ _).filter _) = _
  rw [hchildren]
  split
  · rfl
  · rw [List.append_nil]
    rfl

/-- What is inside a gate comes after it. -/
theorem before_self (hp : (Placement.ofDocument d)[n]? = some p) :
    (p.toGate n (firstInside d n)).before (n + 1) = { p.toGate n 0 with children := [] } := by
  have hnone : (p.toGate n (firstInside d n)).children.filter (· < n + 1) = [] := by
    refine List.filter_eq_nil_iff.mpr fun id hid => ?_
    obtain ⟨k, hk, rfl⟩ := List.mem_range'.mp hid
    have hinside : k < (p.children n).length := by simpa [children, ofSiblings] using hk
    have hq := getElem?_firstInside hp (List.getElem?_eq_getElem hinside)
    have hlt := container_lt hq (of_mem_children (List.getElem_mem hinside)).2.1
    simp only [decide_eq_true_eq]
    omega
  rw [Gate.before, hnone]
  rfl

/-- The gates that are there, after the next one is told to its container. -/
theorem map_before_succ (hp : (Placement.ofDocument d)[n]? = some p) :
    (d.toGates.take n).map (Gate.before (n + 1)) =
      match p.container with
      | some c => ((d.toGates.take n).map (Gate.before n)).modify c (Gate.addChild n)
      | none => (d.toGates.take n).map (Gate.before n) := by
  refine List.ext_getElem? fun i => ?_
  have hgate : (d.toGates.take n)[i]?.map (Gate.before (n + 1)) =
      (d.toGates.take n)[i]?.map fun g =>
        if p.container = some i then (g.before n).addChild n else g.before n := by
    refine Option.map_congr fun g hg => before_succ hp ?_
    rw [List.getElem?_take] at hg
    split at hg
    · exact hg
    · cases hg
  rw [List.getElem?_map, hgate]
  cases hc : p.container with
  | none => simp only [reduceCtorEq, if_false, List.getElem?_map]
  | some c =>
    simp only [List.getElem?_modify, List.getElem?_map, Option.some.injEq]
    by_cases hci : c = i <;> simp [hci, Function.comp_def]

namespace Holds

theorem length_gates (hs : s.Holds d n) (hn : n ≤ d.toGates.length) : s.gates.length = n := by
  rw [hs.gates, List.length_map, List.length_take, Nat.min_eq_left hn]

theorem named? (hs : s.Holds d n) (name : String) :
    s.named? name = ((d.toGates.take n).find? (·.key = Text.fold name)).map (Gate.before n) := by
  rw [Draft.named?, hs.index, hs.gates, List.find?_eq_bind_findIdx?_getElem?, Option.map_bind]
  refine congrArg _ (funext fun i => ?_)
  exact List.getElem?_map

theorem add (hs : s.Holds d n) (hp : (Placement.ofDocument d)[n]? = some p) :
    (s.add p).Holds d (n + 1) := by
  have hlen : s.gates.length = n := by
    have hn := (List.getElem?_eq_some_iff.mp hp).1
    rw [← length_number 0 d.gates.length] at hn
    exact hs.length_gates (Nat.le_of_lt hn)
  have htake := take_toGates_succ hp
  refine ⟨?_, ?_, fun key => ?_⟩
  · rw [htake, List.map_append, List.map_singleton, before_self hp, map_before_succ hp, ← hs.gates,
      Draft.add, hlen]
  · rw [htake, List.filter_append, List.map_append, ← hs.roots, Draft.add, hlen]
    cases hc : p.container <;> simp [toGate, hc]
  · have hcount : (d.toGates.take n).length = n := by
      rw [← List.length_map (Gate.before n), ← hs.gates, hlen]
    rw [htake, List.findIdx?_append, ← hs.index, Draft.add, hlen, hcount]
    by_cases hkey : Text.fold p.name = key
    · subst hkey
      cases hknown : s.index.find? (Text.fold p.name) with
      | some first => simp [hknown]
      | none => simp [Directory.find?_insert, toGate]
    · have hother : [p.toGate n (firstInside d n)].findIdx? (·.key = key) = none := by
        simpa [toGate] using hkey
      rw [hother, Option.map_none, Option.or_none]
      cases s.index.find? (Text.fold p.name) with
      | some first => rfl
      | none => simp [Directory.find?_insert, hkey]

/-- The draft knows a name just when an earlier gate has it. -/
theorem noteKnown (hs : s.Holds d n) (hp : (Placement.ofDocument d)[n]? = some p) :
    s.noteKnown p =
      Hierarchy.noteShadow { gates := d.toGates } (p.toGate n (firstInside d n)) := by
  have hfirst : d.toGates.find? (·.key = Text.fold p.name) =
      ((d.toGates.take n).find? (·.key = Text.fold p.name)).or
        (some (p.toGate n (firstInside d n))) := by
    conv_lhs => rw [← List.take_append_drop (n + 1) d.toGates, take_toGates_succ hp]
    have hself : decide ((p.toGate n (firstInside d n)).key = Text.fold p.name) = true :=
      decide_eq_true rfl
    rw [List.append_assoc, List.find?_append, List.singleton_append, List.find?_cons, hself]
  rw [Draft.noteKnown, hs.named?]
  show _ = match d.toGates.find? (·.key = Text.fold p.name) with
    | some winner =>
      if winner.id = n then pure () else note (.shadowed p.path winner.path)
    | none => pure ()
  rw [hfirst]
  cases hfound : (d.toGates.take n).find? (·.key = Text.fold p.name) with
  | none => exact (if_pos rfl).symm
  | some first =>
    have hother : first.id ≠ n := by
      obtain ⟨i, hi⟩ := List.mem_iff_getElem?.mp (List.mem_of_find?_eq_some hfound)
      rw [List.getElem?_take] at hi
      split at hi
      · have hid := Hierarchy.numbered_of_gates_eq (h := { gates := d.toGates }) rfl i first hi
        omega
      · cases hi
    exact (if_neg hother).symm

end Holds

/-- How a run and an inspection of the gates end together. -/
structure Agrees (d : Document) (run : Noted (Except DocumentFault Draft))
    (inspection : Noted (Option DocumentFault)) : Prop where
  notices : run.notices = inspection.notices
  fault : ∀ fault, inspection.answer = some fault → run.answer = .error fault
  ok : inspection.answer = none → ∃ s, run.answer = .ok s ∧ s.Holds d d.toGates.length

theorem Agrees.error (d : Document) (fault : DocumentFault) :
    Agrees d (pure (.error fault)) (pure (some fault)) where
  notices := rfl
  fault _ h := by
    cases h
    rfl
  ok h := by cases h

theorem Agrees.bind {run : Unit → Noted (Except DocumentFault Draft)}
    {inspection : Unit → Noted (Option DocumentFault)} (first : Noted Unit)
    (h : Agrees d (run ()) (inspection ())) : Agrees d (first >>= run) (first >>= inspection) where
  notices := congrArg (first.notices ++ ·) h.notices
  fault := h.fault
  ok := h.ok

/-- The loop meets the gates as the inspection does. -/
theorem run_agrees (hs : s.Holds d n) (hn : n ≤ d.toGates.length) :
    Agrees d (run (waiting d n) s) (Hierarchy.inspect { gates := d.toGates }
      ((d.toGates.zip (Placement.ofDocument d)).drop n)) := by
  have hsize : d.toGates.length = (Placement.ofDocument d).length := length_number _ _ _
  -- The gates are taken in the order of their numbers, so the induction is on how many are left.
  induction hleft : d.toGates.length - n generalizing n s with
  | zero =>
    obtain rfl : n = d.toGates.length := by omega
    have hnone : (d.toGates.zip (Placement.ofDocument d)).drop d.toGates.length = [] := by
      rw [List.drop_eq_nil_iff, List.length_zip]
      exact Nat.min_le_left _ _
    rw [hnone, hsize, waiting_length, run]
    exact ⟨rfl, nofun, fun _ => ⟨s, rfl, hs⟩⟩
  | succ left ih =>
    have hlt : n < (Placement.ofDocument d).length := by omega
    have hp := List.getElem?_eq_getElem hlt
    generalize (Placement.ofDocument d)[n] = p at hp
    have hrest := ih (hs.add hp) (by omega) (by omega)
    rw [drop_zip_toGates hp, waiting_eq_cons hp, run, Hierarchy.inspect]
    show Agrees d (match Hierarchy.exposureFault? p.path p.definition.filters with
      | some fault => _
      | none => _) (match Hierarchy.exposureFault? p.path p.definition.filters with
      | some fault => _
      | none => _)
    cases Hierarchy.exposureFault? p.path p.definition.filters with
    | some fault => exact Agrees.error d fault
    | none =>
      simp only [← hs.noteKnown hp, hs.length_gates hn]
      refine Agrees.bind _ ?_
      show Agrees d (match Hierarchy.nameFault? (some p.path) [] p.definition.children with
        | some fault => _
        | none => _) (match Hierarchy.nameFault? (some p.path) [] p.definition.children with
        | some fault => _
        | none => _)
      cases Hierarchy.nameFault? (some p.path) [] p.definition.children with
      | some fault => exact Agrees.error d fault
      | none => rwa [waiting_succ hp] at hrest

end Step

/-! ## The whole document -/

/-- The gates that are inside a gate of a document have numbers of the document. -/
theorem map_before_length (d : Document) :
    d.toGates.map (Gate.before d.toGates.length) = d.toGates := by
  conv_rhs => rw [← List.map_id d.toGates]
  refine List.map_congr_left fun g hg => ?_
  have hall : g.children.filter (· < d.toGates.length) = g.children := by
    refine List.filter_eq_self.mpr fun id hid => decide_eq_true ?_
    obtain ⟨c, hc, -⟩ := (Hierarchy.mem_children_iff (h := { gates := d.toGates }) rfl hg).mp hid
    exact (List.getElem?_eq_some_iff.mp hc).1
  rw [Gate.before, hall]
  rfl

theorem Holds.finished {d : Document} {s : Draft} (hs : s.Holds d d.toGates.length)
    {h : Hierarchy} (hd : h.gates = d.toGates) :
    s.gates = h.gates ∧ s.roots = h.roots.map (·.id) ∧ ∀ name, s.named? name = h.named? name := by
  have hgates := hs.gates
  have hroots := hs.roots
  rw [List.take_length] at hgates hroots
  rw [map_before_length] at hgates
  refine ⟨hgates.trans hd.symm, ?_, fun name => ?_⟩
  · rw [hroots, Hierarchy.roots, hd]
  · rw [Draft.named?, hs.index, hgates, List.take_length, Hierarchy.named?, hd,
      List.find?_eq_bind_findIdx?_getElem?]

/-- Loading from a queue finds the same faults, notices the same, and leaves the same gates, which
are found by the same names. -/
theorem ofDocument_agrees (d : Document) :
    (ofDocument d).notices = (Hierarchy.ofDocument d).notices ∧
      (∀ fault, (Hierarchy.ofDocument d).answer = .error fault →
        (ofDocument d).answer = .error fault) ∧
      ∀ h, (Hierarchy.ofDocument d).answer = .ok h → ∃ s, (ofDocument d).answer = .ok s ∧
        s.gates = h.gates ∧ s.roots = h.roots.map (·.id) ∧
          ∀ name, s.named? name = h.named? name := by
  have hrun := run_agrees (holds_empty d) (Nat.zero_le _)
  rw [Placement.waiting_zero, List.drop_zero] at hrun
  rw [ofDocument, Hierarchy.ofDocument]
  cases Hierarchy.nameFault? none [] d.gates with
  | some fault => exact ⟨rfl, fun _ h => by cases h; rfl, fun _ h => by cases h⟩
  | none =>
    refine ⟨hrun.notices, fun fault hfault => ?_, fun h hok => ?_⟩
    · simp only [Noted.answer_map] at hfault
      split at hfault
      · cases hfault
        exact hrun.fault _ ‹_›
      · cases hfault
    · simp only [Noted.answer_map] at hok
      split at hok
      · cases hok
      · cases hok
        obtain ⟨s, hs, hholds⟩ := hrun.ok ‹_›
        exact ⟨s, hs, hholds.finished rfl⟩

/-! ## What is stored -/

/-- The document that a draft was made from, by way of the roots and children that it stores. -/
def toDocument (s : Draft) : Document :=
  let h : Hierarchy := { gates := s.gates }
  ⟨s.roots.filterMap fun id => (h.gate? id).map fun g => (g.name, h.definitionOf h.size g)⟩

/-- The numbers that a draft stores are those of a document that is stored by depth. -/
structure Flattens (s : Draft) (d : Document) : Prop where
  numbered : ∀ (i : Nat) (g : Gate), s.gates[i]? = some g → g.id = i
  children_contiguous : ∀ g ∈ s.gates, ∃ first, g.children = List.range' first g.children.length
  mem_children : ∀ g ∈ s.gates, ∀ id : Nat,
    id ∈ g.children ↔ ∃ c, s.gates[id]? = some c ∧ c.container = some g.id
  roots : s.roots = List.range d.gates.length
  mem_roots : ∀ id : Nat, id ∈ s.roots ↔ ∃ g, s.gates[id]? = some g ∧ g.container = none
  toDocument : s.toDocument = d

/-- The roots and children that were written down one by one are all there at the end. -/
theorem flattens_of_answer_ok {d : Document} {s : Draft} (hs : (ofDocument d).answer = .ok s) :
    s.Flattens d := by
  obtain ⟨-, hfault, hok⟩ := ofDocument_agrees d
  cases hd : (Hierarchy.ofDocument d).answer with
  | error fault =>
    rw [hfault fault hd] at hs
    cases hs
  | ok h =>
    obtain ⟨s', hs', hgates, hroots, -⟩ := hok h hd
    obtain rfl := Except.ok.inj (hs.symm.trans hs')
    rw [Hierarchy.roots, ← hgates] at hroots
    have hh := Hierarchy.flattens_of_gates_eq (h := { gates := s.gates })
      (hgates.trans (Hierarchy.gates_of_ofDocument hd))
    have hfound : ∀ g ∈ s.gates, s.gates[g.id]? = some g := fun g hg => hh.numbered.gate?_id hg
    exact {
      numbered := hh.numbered
      children_contiguous := hh.children_contiguous
      mem_children := hh.mem_children
      roots := hroots.trans hh.roots
      mem_roots := by
        intro id
        rw [hroots, List.mem_map]
        constructor
        · rintro ⟨g, hg, rfl⟩
          obtain ⟨hmem, hnone⟩ := (hh.mem_roots g).mp hg
          exact ⟨g, hfound g hmem, hnone⟩
        · rintro ⟨g, hg, hnone⟩
          exact ⟨g, (hh.mem_roots g).mpr ⟨List.mem_of_getElem? hg, hnone⟩, hh.numbered id g hg⟩
      toDocument := by
        refine Eq.trans ?_ hh.toDocument
        rw [toDocument, hroots, List.filterMap_map, Hierarchy.toDocument, Hierarchy.roots]
        refine congrArg Document.mk ((List.filterMap_congr fun g hg => ?_).trans
          (congrFun List.filterMap_eq_map' _))
        have hgate : Hierarchy.gate? { gates := s.gates } g.id = some g :=
          hfound g (List.mem_of_mem_filter hg)
        rw [Function.comp_apply, hgate]
        rfl }

end Draft
end FeatureGates
