import FeatureGates.Proofs.Activity
import Mathlib.Dynamics.PeriodicPts.Defs

/-!
Demand cycles.

A gate looks at the gates it demands one after another, and goes on only as long as they are on.  So
of the gates it demands only the last can be off, and from a gate that is off there is one way at
most that stays among gates that are off.  All cycles of demands are made of such gates: they are
the rings at the ends of these ways, and no two of them share a gate.
-/

namespace FeatureGates
namespace Scope

open Relation (TransGen ReflTransGen)

variable {s : Scope} {g p q : Gate}

/-! ## Demands in their order -/

/-- The gate that a filter asks for. -/
def asked (s : Scope) : Filter → Option Gate
  | .condition _ => none
  | .parent name => s.view.named? name

open Classical in
/-- The gates that filters ask for, up to the first filter that does not pass. -/
noncomputable def askedInTurn (s : Scope) (g : Gate) : List Filter → List Gate
  | [] => []
  | f :: rest =>
    (s.asked f).toList ++ if s.Passes s.Active g f then s.askedInTurn g rest else []

open Classical in
/-- The gates that a gate demands, in the order in which it looks at them. -/
noncomputable def demanded (s : Scope) (g : Gate) : List Gate :=
  (g.container.bind s.view.gate?).toList ++
    if s.ContainerOn s.Active g then s.askedInTurn g g.filters else []

theorem active_of_asked {f : Filter} (hf : s.Passes s.Active g f) (hp : s.asked f = some p) :
    s.Active p := by
  cases f with
  | condition c => cases hp
  | parent name =>
    obtain ⟨q, hq, hon⟩ := hf
    have hsame : some p = some q := hp.symm.trans hq
    cases hsame
    exact hon

open Classical in
theorem mem_askedInTurn_iff {filters : List Filter} :
    p ∈ s.askedInTurn g filters ↔ ∃ before name after,
      filters = before ++ .parent name :: after ∧ (∀ f ∈ before, s.Passes s.Active g f) ∧
        s.view.named? name = some p := by
  induction filters with
  | nil => simp [askedInTurn]
  | cons f rest ih =>
    rw [askedInTurn, List.mem_append, Option.mem_toList, List.mem_ite_nil_right, ih]
    constructor
    · intro hp
      rcases hp with hp | ⟨hf, before, name, after, rfl, hbefore, hp⟩
      · cases f with
        | condition c => cases hp
        | parent name => exact ⟨[], name, rest, rfl, by simp, hp⟩
      · refine ⟨f :: before, name, after, rfl, fun f' hf' => ?_, hp⟩
        rcases List.mem_cons.mp hf' with rfl | hf'
        · exact hf
        · exact hbefore f' hf'
    · intro hp
      obtain ⟨before, name, after, hfilters, hbefore, hp⟩ := hp
      cases before with
      | nil =>
        cases hfilters
        exact Or.inl hp
      | cons f' before =>
        cases hfilters
        exact Or.inr ⟨hbefore f List.mem_cons_self, before, name, after, rfl,
          fun f' hf' => hbefore f' (List.mem_cons_of_mem f hf'), hp⟩

open Classical in
theorem mem_demanded_iff : p ∈ s.demanded g ↔ s.Demands g p := by
  rw [demanded, List.mem_append, Option.mem_toList, Option.bind_eq_some_iff,
    List.mem_ite_nil_right, mem_askedInTurn_iff]
  constructor
  · intro hp
    rcases hp with ⟨id, hid, hp⟩ | ⟨hc, before, name, after, hfilters, hbefore, hp⟩
    · exact .container hid hp
    · exact .parent hc hfilters hbefore hp
  · intro hp
    cases hp with
    | container hid hp => exact Or.inl ⟨_, hid, hp⟩
    | parent hc hfilters hbefore hp => exact Or.inr ⟨hc, _, _, _, hfilters, hbefore, hp⟩

open Classical in
theorem pairwise_askedInTurn (filters : List Filter) :
    (s.askedInTurn g filters).Pairwise fun p _ => s.Active p := by
  induction filters with
  | nil => exact List.Pairwise.nil
  | cons f rest ih =>
    rw [askedInTurn, List.pairwise_append]
    refine ⟨by cases s.asked f <;> simp, ?_, fun p hp q hq => ?_⟩
    · split
      · exact ih
      · exact List.Pairwise.nil
    · exact active_of_asked (List.mem_ite_nil_right.mp hq).1 (by simpa using hp)

open Classical in
/-- A gate looks at a further gate only if those before are on. -/
theorem pairwise_demanded (s : Scope) (g : Gate) :
    (s.demanded g).Pairwise fun p _ => s.Active p := by
  rw [demanded, List.pairwise_append]
  refine ⟨by cases g.container.bind s.view.gate? <;> simp, ?_, fun p hp q hq => ?_⟩
  · split
    · exact pairwise_askedInTurn g.filters
    · exact List.Pairwise.nil
  · obtain ⟨id, hid, hp⟩ := Option.bind_eq_some_iff.mp (Option.mem_toList.mp hp)
    obtain ⟨c, hc, hon⟩ := (List.mem_ite_nil_right.mp hq).1 id hid
    rw [hp] at hc
    cases hc
    exact hon

/-- Of the gates that a gate demands, one at most is off. -/
theorem Demands.eq_of_off (hp : s.Demands g p) (hq : s.Demands g q) (hpoff : ¬s.Active p)
    (hqoff : ¬s.Active q) : p = q := by
  by_contra hne
  have : Std.Symm fun p q => s.Active p ∨ s.Active q := ⟨fun _ _ => Or.symm⟩
  have heither : (s.demanded g).Pairwise fun p q => s.Active p ∨ s.Active q :=
    (pairwise_demanded s g).imp Or.inl
  have hon := heither.forall (mem_demanded_iff.mpr hp) (mem_demanded_iff.mpr hq) hne
  exact hon.elim hpoff hqoff

theorem Active.of_demands (hg : s.Active g) (hp : s.Demands g p) : s.Active p := by
  obtain ⟨hc, hf⟩ := active_iff.mp hg
  cases hp with
  | container hid hp =>
    obtain ⟨c, hfound, hon⟩ := hc _ hid
    rw [hp] at hfound
    cases hfound
    exact hon
  | @parent before after name _ hfilters _ hp =>
    have hmem : Filter.parent name ∈ g.filters := by
      rw [hfilters]
      exact List.mem_append_right before List.mem_cons_self
    exact active_of_asked (hf _ hmem) hp

theorem Active.of_reach (hg : s.Active g) (hp : ReflTransGen s.Demands g p) : s.Active p := by
  induction hp with
  | refl => exact hg
  | tail _ hstep ih => exact ih.of_demands hstep

/-! ## Cycles -/

/-- Different gates in a ring, each of which demands the next. -/
structure DemandCycle (s : Scope) (c : Cycle Gate) : Prop where
  nonempty : c ≠ Cycle.nil
  nodup : c.Nodup
  chain : c.Chain s.Demands

/-- A way along demands leads from a gate into a cycle. -/
def Reaches (s : Scope) (g : Gate) (c : Cycle Gate) : Prop :=
  ∃ x ∈ c, ReflTransGen s.Demands g x

variable {c c' : Cycle Gate}

theorem DemandCycle.transGen (hc : s.DemandCycle c) (hg : g ∈ c) (hp : p ∈ c) :
    TransGen s.Demands g p :=
  Cycle.chain_iff_pairwise.mp (hc.chain.imp fun _ _ => TransGen.single) g hg p hp

theorem DemandCycle.not_active (hc : s.DemandCycle c) (hg : g ∈ c) : ¬s.Active g :=
  not_active_of_cycle (hc.transGen hg hg)

theorem DemandCycle.exists_mem (hc : s.DemandCycle c) : ∃ x, x ∈ c := by
  induction c using Cycle.induction_on with
  | nil => exact absurd rfl hc.nonempty
  | cons x l _ => exact ⟨x, Cycle.mem_coe_iff.mpr List.mem_cons_self⟩

/-- Two ways among gates that are off, from one gate to another that they meet at the end only. -/
theorem eq_of_isChain {x z : Gate} {l l' : List Gate}
    (hl : (x :: (l ++ [z])).IsChain s.Demands) (hl' : (x :: (l' ++ [z])).IsChain s.Demands)
    (hoff : ∀ y ∈ l ++ [z], ¬s.Active y) (hoff' : ∀ y ∈ l' ++ [z], ¬s.Active y)
    (hz : z ∉ l) (hz' : z ∉ l') : l = l' := by
  induction l generalizing x l' with
  | nil =>
    cases l' with
    | nil => rfl
    | cons b l' =>
      obtain rfl : z = b := (List.isChain_cons_cons.mp hl).1.eq_of_off
        (List.isChain_cons_cons.mp hl').1 (hoff z (by simp)) (hoff' b (by simp))
      exact absurd List.mem_cons_self hz'
  | cons a l ih =>
    cases l' with
    | nil =>
      obtain rfl : a = z := (List.isChain_cons_cons.mp hl).1.eq_of_off
        (List.isChain_cons_cons.mp hl').1 (hoff a (by simp)) (hoff' z (by simp))
      exact absurd List.mem_cons_self hz
    | cons b l' =>
      obtain ⟨ha, hl⟩ := List.isChain_cons_cons.mp hl
      obtain ⟨hb, hl'⟩ := List.isChain_cons_cons.mp hl'
      obtain rfl : a = b := ha.eq_of_off hb (hoff a (by simp)) (hoff' b (by simp))
      have hrest : l = l' := ih hl hl' (fun y hy => hoff y (List.mem_cons_of_mem a hy))
        (fun y hy => hoff' y (List.mem_cons_of_mem a hy)) (List.not_mem_of_not_mem_cons hz)
        (List.not_mem_of_not_mem_cons hz')
      rw [hrest]

theorem exists_coe_cons {x : Gate} (hx : x ∈ c) : ∃ l : List Gate, c = ↑(x :: l) := by
  induction c using Quotient.inductionOn' with
  | h l =>
    obtain ⟨before, after, rfl⟩ := List.append_of_mem (Cycle.mem_coe_iff.mp hx)
    exact ⟨after ++ before, Cycle.coe_eq_coe.mpr List.isRotated_append⟩

/-- Cycles that share a gate are the same. -/
theorem DemandCycle.eq_of_mem (hc : s.DemandCycle c) (hc' : s.DemandCycle c') (hg : g ∈ c)
    (hg' : g ∈ c') : c = c' := by
  obtain ⟨l, rfl⟩ := exists_coe_cons hg
  obtain ⟨l', rfl⟩ := exists_coe_cons hg'
  have hl : l = l' := by
    refine eq_of_isChain ((Cycle.chain_coe_cons _ _ _).mp hc.chain)
      ((Cycle.chain_coe_cons _ _ _).mp hc'.chain) (fun y hy => hc.not_active ?_)
      (fun y hy => hc'.not_active ?_) (List.nodup_cons.mp hc.nodup).1
      (List.nodup_cons.mp hc'.nodup).1
    · simpa [or_comm] using hy
    · simpa [or_comm] using hy
  rw [hl]

open Classical in
/-- Where the way of a gate that is off goes on, or the gate itself at the end of the way. -/
noncomputable def next (s : Scope) (g : Gate) : Gate :=
  if h : ∃ p, s.Demands g p ∧ ¬s.Active p then h.choose else g

theorem next_eq (hp : s.Demands g p) (hoff : ¬s.Active p) : s.next g = p := by
  have hex : ∃ p, s.Demands g p ∧ ¬s.Active p := ⟨p, hp, hoff⟩
  rw [next, dif_pos hex]
  exact hex.choose_spec.1.eq_of_off hp hex.choose_spec.2 hoff

theorem exists_iterate_next (hoff : ¬s.Active p) (hgp : ReflTransGen s.Demands g p) :
    ∃ n, s.next^[n] g = p := by
  induction hgp using ReflTransGen.head_induction_on with
  | refl => exact ⟨0, rfl⟩
  | @head a b hab hbp ih =>
    obtain ⟨n, hn⟩ := ih
    have hboff : ¬s.Active b := fun hb => hoff (hb.of_reach hbp)
    refine ⟨n + 1, ?_⟩
    rw [Function.iterate_succ_apply, next_eq hab hboff, hn]

/-- The way from a gate on a cycle leads round the cycle. -/
theorem next_of_cycle (hg : TransGen s.Demands g g) :
    s.Demands g (s.next g) ∧ ReflTransGen s.Demands (s.next g) g := by
  obtain ⟨p, hgp, hpg⟩ := TransGen.head'_iff.mp hg
  rw [next_eq hgp (not_active_of_cycle (TransGen.tail' hpg hgp))]
  exact ⟨hgp, hpg⟩

theorem cycle_iterate_next (hg : TransGen s.Demands g g) (n : Nat) :
    TransGen s.Demands (s.next^[n] g) (s.next^[n] g) := by
  induction n with
  | zero => exact hg
  | succ n ih =>
    rw [Function.iterate_succ_apply']
    exact TransGen.tail' (next_of_cycle ih).2 (next_of_cycle ih).1

/-- A gate that demands itself in some number of steps is on a cycle. -/
theorem exists_demandCycle (hg : TransGen s.Demands g g) : ∃ c, s.DemandCycle c ∧ g ∈ c := by
  have hperiodic : g ∈ Function.periodicPts s.next := by
    obtain ⟨n, hn⟩ := exists_iterate_next (not_active_of_cycle hg) (next_of_cycle hg).2
    exact Function.mk_mem_periodicPts (Nat.succ_pos n) hn
  refine ⟨Function.periodicOrbit s.next g, ⟨?_, Function.nodup_periodicOrbit, ?_⟩,
    Function.self_mem_periodicOrbit hperiodic⟩
  · rw [ne_eq, Function.periodicOrbit_eq_nil_iff_not_periodic_pt]
    exact not_not.mpr hperiodic
  · rw [Function.periodicOrbit_chain' _ hperiodic]
    intro n
    rw [Function.iterate_succ_apply']
    exact (next_of_cycle (cycle_iterate_next hg n)).1

theorem DemandCycle.next_mem (hc : s.DemandCycle c) (hg : g ∈ c) : s.next g ∈ c := by
  obtain ⟨l, rfl⟩ := exists_coe_cons hg
  have hchain := (Cycle.chain_coe_cons _ _ _).mp hc.chain
  cases l with
  | nil =>
    have hgg : s.Demands g g := by simpa using hchain
    rw [next_eq hgg (hc.not_active hg)]
    exact hg
  | cons b l =>
    have hgb : s.Demands g b := (List.isChain_cons_cons.mp hchain).1
    have hb : b ∈ (↑(g :: b :: l) : Cycle Gate) := Cycle.mem_coe_iff.mpr (by simp)
    rw [next_eq hgb (hc.not_active hb)]
    exact hb

theorem DemandCycle.iterate_next_mem (hc : s.DemandCycle c) (hg : g ∈ c) (n : Nat) :
    s.next^[n] g ∈ c := by
  induction n with
  | zero => exact hg
  | succ n ih =>
    rw [Function.iterate_succ_apply']
    exact hc.next_mem ih

/-- From one gate one cycle at most is reached. -/
theorem DemandCycle.eq_of_reaches (hc : s.DemandCycle c) (hc' : s.DemandCycle c')
    (hg : s.Reaches g c) (hg' : s.Reaches g c') : c = c' := by
  obtain ⟨x, hx, hgx⟩ := hg
  obtain ⟨y, hy, hgy⟩ := hg'
  obtain ⟨n, hn⟩ := exists_iterate_next (hc.not_active hx) hgx
  obtain ⟨k, hk⟩ := exists_iterate_next (hc'.not_active hy) hgy
  -- Both cycles lie on the way from `g`, and far enough along it is a gate that both contain.
  have hmeet : s.next^[k] x = s.next^[n] y := by
    rw [← hn, ← hk, ← Function.iterate_add_apply, ← Function.iterate_add_apply, Nat.add_comm]
  have hin := hc.iterate_next_mem hx k
  rw [hmeet] at hin
  exact hc.eq_of_mem hc' hin (hc'.iterate_next_mem hy n)

end Scope
end FeatureGates
