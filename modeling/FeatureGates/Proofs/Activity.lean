import FeatureGates.Resolver
import Mathlib.Logic.Relation
import Mathlib.Order.FixedPoints

/-!
Which gates are on, said without any order in which they are decided.

A gate needs its container and the gates its parent filters name, and all of these may need it in
turn.  `Active` is the least solution of those needs, so a gate that needs itself is off.  Every
gate gets a `verdict` from it: the decision, with its reason, that an evaluation has to give.
-/

namespace FeatureGates
namespace Scope

/-- Whether a filter of a gate passes, where `on` says which gates are on. -/
def Passes (s : Scope) (on : Gate → Prop) (g : Gate) : Filter → Prop
  | .condition c => c.holds (s.circumstances g.name) = true
  | .parent name => ∃ p, s.view.named? name = some p ∧ on p

/-- The gate around a gate, if there is one, is found and is on. -/
def ContainerOn (s : Scope) (on : Gate → Prop) (g : Gate) : Prop :=
  ∀ id, g.container = some id → ∃ c, s.view.gate? id = some c ∧ on c

theorem Passes.mono {s : Scope} {on on' : Gate → Prop} (hle : ∀ p, on p → on' p) {g : Gate} :
    ∀ {f : Filter}, s.Passes on g f → s.Passes on' g f
  | .condition _, hf => hf
  | .parent _, ⟨p, hp, hon⟩ => ⟨p, hp, hle p hon⟩

theorem ContainerOn.mono {s : Scope} {on on' : Gate → Prop} (hle : ∀ p, on p → on' p) {g : Gate}
    (hc : s.ContainerOn on g) : s.ContainerOn on' g := by
  intro id hid
  obtain ⟨c, hfound, hon⟩ := hc id hid
  exact ⟨c, hfound, hle c hon⟩

/-- The gates that have all they need, where `on` says which gates are on. -/
def supplied (s : Scope) : (Gate → Prop) →o (Gate → Prop) where
  toFun on g := s.ContainerOn on g ∧ ∀ f ∈ g.filters, s.Passes on g f
  monotone' := fun _ _ hle _ hg => ⟨hg.1.mono hle, fun f hf => (hg.2 f hf).mono hle⟩

/-- The gates that are on: the least predicate that holds of the gates that have all they need. -/
def Active (s : Scope) : Gate → Prop := s.supplied.lfp

theorem active_iff {s : Scope} {g : Gate} :
    s.Active g ↔ s.ContainerOn s.Active g ∧ ∀ f ∈ g.filters, s.Passes s.Active g f := by
  have hfix : s.supplied s.Active g = s.Active g := congrFun s.supplied.map_lfp g
  rw [← hfix]
  rfl

/-- To show something of all gates that are on, show it of a gate whose needs have it. -/
theorem Active.induction {s : Scope} {P : Gate → Prop}
    (hstep : ∀ g, s.ContainerOn P g → (∀ f ∈ g.filters, s.Passes P g f) → P g) {g : Gate}
    (hg : s.Active g) : P g :=
  s.supplied.lfp_le (fun g' hg' => hstep g' hg'.1 hg'.2) g hg

/-! ## Demands -/

/-- The gates whose decision a gate waits for: its container, and once that is on, the gate that a
parent filter names, if all filters before that one pass. -/
inductive Demands (s : Scope) (g p : Gate) : Prop
  | container {id : Nat} (hid : g.container = some id) (hp : s.view.gate? id = some p)
  | parent {before after : List Filter} {name : String} (hc : s.ContainerOn s.Active g)
      (hfilters : g.filters = before ++ .parent name :: after)
      (hbefore : ∀ f ∈ before, s.Passes s.Active g f) (hp : s.view.named? name = some p)

/-- Going from a gate that is on from demand to demand comes to an end. -/
theorem Active.acc {s : Scope} {g : Gate} (hg : s.Active g) :
    Acc (Function.swap s.Demands) g := by
  refine hg.induction fun q hc hf => Acc.intro q fun p hp => ?_
  cases hp with
  | container hid hp =>
    obtain ⟨c, hfound, hacc⟩ := hc _ hid
    rw [hp] at hfound
    cases hfound
    exact hacc
  | @parent before after name _ hfilters _ hp =>
    have hmem : Filter.parent name ∈ q.filters := by
      rw [hfilters]
      exact List.mem_append_right before List.mem_cons_self
    obtain ⟨c, hfound, hacc⟩ := hf _ hmem
    rw [hp] at hfound
    cases hfound
    exact hacc

/-- A gate that demands itself, in however many steps, is off. -/
theorem not_active_of_cycle {s : Scope} {g : Gate} (hcycle : Relation.TransGen s.Demands g g) :
    ¬s.Active g := by
  intro hg
  have hacc : Acc (Relation.TransGen (Function.swap s.Demands)) g := hg.acc.transGen
  have hback : Relation.TransGen (Function.swap s.Demands) g g :=
    Relation.transGen_swap.mpr hcycle
  clear hg hcycle
  induction hacc with
  | intro q _ ih => exact ih q hback hback

/-! ## Verdicts -/

open Classical in
/-- `Passes` for the gates that are on, as a test. -/
noncomputable def clears (s : Scope) (g : Gate) (f : Filter) : Bool :=
  Decidable.decide (s.Passes s.Active g f)

open Classical in
theorem clears_iff {s : Scope} {g : Gate} {f : Filter} :
    s.clears g f = true ↔ s.Passes s.Active g f := by
  rw [clears, decide_eq_true_iff]

/-- The verdict on a gate whose container is on: the first filter that does not pass counts. -/
noncomputable def filterVerdict (s : Scope) (g : Gate) : Decision :=
  match g.filters.zipIdx.find? fun entry => !s.clears g entry.1 with
  | none => .passed
  | some (filter, index) => .filterFailed index filter.kind

open Classical in
/-- What an evaluation has to say about a gate. -/
noncomputable def verdict (s : Scope) (g : Gate) : Decision :=
  match g.container with
  | none => s.filterVerdict g
  | some id =>
    match s.view.gate? id with
    | none => .error .gateNotFound
    | some c => if s.Active c then s.filterVerdict g else .containerInactive c.name

theorem find?_zipIdx_eq_none {s : Scope} {g : Gate} {filters : List Filter} {index : Nat}
    (hpass : ∀ f ∈ filters, s.Passes s.Active g f) :
    ((filters.zipIdx index).find? fun entry => !s.clears g entry.1) = none := by
  rw [List.find?_eq_none]
  intro entry hentry
  have hf := clears_iff.mpr (hpass entry.1 (List.fst_mem_of_mem_zipIdx hentry))
  simp [hf]

theorem filterVerdict_of_pass {s : Scope} {g : Gate}
    (hpass : ∀ f ∈ g.filters, s.Passes s.Active g f) : s.filterVerdict g = .passed := by
  rw [filterVerdict, find?_zipIdx_eq_none hpass]

theorem filterVerdict_of_fail {s : Scope} {g : Gate} {before after : List Filter} {f : Filter}
    (hfilters : g.filters = before ++ f :: after)
    (hbefore : ∀ f' ∈ before, s.Passes s.Active g f') (hf : ¬s.Passes s.Active g f) :
    s.filterVerdict g = .filterFailed before.length f.kind := by
  have hfalse : s.clears g f = false := by
    rw [← Bool.not_eq_true, clears_iff]
    exact hf
  rw [filterVerdict, hfilters, List.zipIdx_append, List.find?_append,
    find?_zipIdx_eq_none hbefore]
  simp [hfalse]

/-- The verdict depends on which filters pass and on nothing else. -/
theorem filterVerdict_congr {s s' : Scope} {g g' : Gate} (hfilters : g.filters = g'.filters)
    (hpass : ∀ f ∈ g.filters, s.Passes s.Active g f ↔ s'.Passes s'.Active g' f) :
    s.filterVerdict g = s'.filterVerdict g' := by
  have hclears : ∀ f ∈ g.filters, s.clears g f = s'.clears g' f := fun f hf => by
    rw [Bool.eq_iff_iff, clears_iff, clears_iff, hpass f hf]
  have hfind : (g.filters.zipIdx.find? fun entry => !s.clears g entry.1) =
      g.filters.zipIdx.find? fun entry => !s'.clears g' entry.1 := by
    rw [← List.head?_filter, ← List.head?_filter]
    refine congrArg List.head? (List.filter_congr fun entry hentry => ?_)
    rw [hclears entry.1 (List.fst_mem_of_mem_zipIdx hentry)]
  rw [filterVerdict, filterVerdict, hfind, hfilters]

theorem filterVerdict_active_iff {s : Scope} {g : Gate} :
    (s.filterVerdict g).active = true ↔ ∀ f ∈ g.filters, s.Passes s.Active g f := by
  constructor
  · intro hactive f hf
    rw [filterVerdict] at hactive
    split at hactive
    · rename_i hnone
      obtain ⟨index, hindex⟩ := List.mem_iff_getElem?.mp hf
      have hclear := List.find?_eq_none.mp hnone (f, index)
        (List.mem_zipIdx_iff_getElem?.mpr hindex)
      rw [← clears_iff]
      simpa using hclear
    · simp [Decision.filterFailed] at hactive
  · intro hpass
    rw [filterVerdict_of_pass hpass]
    rfl

/-- The verdict on a gate turns it on just when the gate is on. -/
theorem verdict_active_iff {s : Scope} {g : Gate} :
    (s.verdict g).active = true ↔ s.Active g := by
  rw [active_iff, verdict]
  split
  · rename_i hnone
    rw [filterVerdict_active_iff]
    have hc : s.ContainerOn s.Active g := fun id hid => by rw [hnone] at hid; cases hid
    simp [hc]
  · rename_i id hid
    split
    · rename_i hlost
      have hc : ¬s.ContainerOn s.Active g := by
        intro hc
        obtain ⟨c, hfound, -⟩ := hc id hid
        rw [hlost] at hfound
        cases hfound
      simp [hc, Decision.error]
    · rename_i c hfound
      have hc : s.ContainerOn s.Active g ↔ s.Active c := by
        simp [ContainerOn, hid, hfound]
      rw [hc]
      split
      · rename_i hon
        simp [filterVerdict_active_iff, hon]
      · rename_i hoff
        simp [Decision.containerInactive, hoff]

end Scope
end FeatureGates
