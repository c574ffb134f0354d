import FeatureGates.Evaluation
import FeatureGates.Proofs.Activity
import FeatureGates.Proofs.Numbering

/-!
Evaluations give every gate its verdict.

While gates are being decided, a gate in progress demands, in some number of steps, the gate that
is looked at now.  So a gate that is met in progress demands itself and is off, and counting it as
off is not a guess that might have to be taken back.  This is why the decisions that were made
inside a cycle may be kept and used again, from whatever gate they are reached later.
-/

namespace FeatureGates

namespace Marks

/-- `m'` comes from `m` by deciding further gates: no gate is left in progress that was not in
progress before, and no decision is changed. -/
structure Extends (m m' : Marks) : Prop where
  inProgress : ∀ id, m'.find? id = some .inProgress ↔ m.find? id = some .inProgress
  decided : ∀ id d, m.find? id = some (.decided d) → m'.find? id = some (.decided d)

theorem Extends.refl (m : Marks) : m.Extends m := ⟨fun _ => Iff.rfl, fun _ _ hd => hd⟩

theorem Extends.trans {m m' m'' : Marks} (h : m.Extends m') (h' : m'.Extends m'') :
    m.Extends m'' :=
  ⟨fun id => (h'.inProgress id).trans (h.inProgress id),
   fun id d hd => h'.decided id d (h.decided id d hd)⟩

theorem Extends.find?_ne_none {m m' : Marks} (h : m.Extends m') {id : Nat}
    (hid : m.find? id ≠ none) : m'.find? id ≠ none := by
  cases hm : m.find? id with
  | none => exact absurd hm hid
  | some p =>
    cases p with
    | inProgress => rw [(h.inProgress id).mpr hm]; simp
    | decided d => rw [h.decided id d hm]; simp

/-- Going into a gate that was not reached before and coming out with its decision. -/
theorem Extends.of_set {m m' : Marks} {id : Nat} {d : Decision} (hid : m.find? id = none)
    (h : (m.set id .inProgress).Extends m') : m.Extends (m'.set id (.decided d)) := by
  refine ⟨fun other => ?_, fun other d' hd => ?_⟩
  · have hin := h.inProgress other
    rw [find?_set] at hin ⊢
    by_cases he : other = id
    · simp [he, hid]
    · simpa [he] using hin
  · have hne : other ≠ id := by
      rintro rfl
      rw [hid] at hd
      cases hd
    have hkeep := h.decided other d'
    rw [find?_set, if_neg hne] at hkeep
    rw [find?_set, if_neg hne]
    exact hkeep hd

/-- How many of the gates were not reached yet. -/
def unreached (m : Marks) (gates : List Gate) : Nat := gates.countP fun g => (m.find? g.id).isNone

theorem Extends.unreached_le {m m' : Marks} (h : m.Extends m') (gates : List Gate) :
    m'.unreached gates ≤ m.unreached gates := by
  refine List.countP_mono_left fun g _ hg => ?_
  rw [Option.isNone_iff_eq_none] at hg ⊢
  by_contra hne
  exact h.find?_ne_none hne hg

theorem unreached_set_le (m : Marks) (id : Nat) (p : Progress) (gates : List Gate) :
    (m.set id p).unreached gates ≤ m.unreached gates := by
  refine List.countP_mono_left fun g _ hg => ?_
  rw [find?_set] at hg
  split at hg
  · cases hg
  · exact hg

/-- Reaching a gate leaves one gate fewer to reach. -/
theorem unreached_set_lt {m : Marks} {g : Gate} {p : Progress} {gates : List Gate}
    (hg : g ∈ gates) (hm : m.find? g.id = none) :
    (m.set g.id p).unreached gates < m.unreached gates := by
  obtain ⟨before, after, rfl⟩ := List.append_of_mem hg
  have hbefore := unreached_set_le m g.id p before
  have hafter := unreached_set_le m g.id p after
  simp only [unreached, List.countP_append, List.countP_cons, find?_set, if_true, hm,
    Option.isNone_some, Option.isNone_none, Bool.false_eq_true, if_false] at hbefore hafter ⊢
  omega

end Marks

namespace Resolver

variable {s : Scope} {h : Hierarchy} {g : Gate} {v : Visit}

/-! ## Equations for the answers -/

theorem resolveFilters_cons (index : Nat) (f : Filter) (rest : List Filter) (m : Marks) :
    (resolveFilters s v g index (f :: rest) m).answer =
      if (filterPasses s v g m f).answer.1 then
        (resolveFilters s v g (index + 1) rest (filterPasses s v g m f).answer.2).answer
      else (Decision.filterFailed index f.kind, (filterPasses s v g m f).answer.2) := by
  simp only [resolveFilters, Noted.answer_bind]
  split <;> rfl

theorem resolve_of_container {id : Nat} {c : Gate} (hid : g.container = some id)
    (hc : s.view.gate? id = some c) (m : Marks) :
    (resolve s v g m).answer =
      if (v c m).answer.1.active then
        (resolveFilters s v g 0 g.filters (v c m).answer.2).answer
      else (Decision.containerInactive c.name, (v c m).answer.2) := by
  simp only [resolve, hid, hc, Noted.answer_bind]
  split <;> rfl

theorem visit_of_decided {m : Marks} {d : Decision} (hm : m.find? g.id = some (.decided d))
    (depth : Nat) : (visit s depth g m).answer = (d, m) := by
  rw [visit.eq_def, hm]
  rfl

theorem visit_of_inProgress {m : Marks} (hm : m.find? g.id = some .inProgress) (depth : Nat) :
    (visit s depth g m).answer = (Decision.error .cycleDetected, m) := by
  rw [visit.eq_def, hm]
  rfl

theorem visit_of_unreached {m : Marks} (hm : m.find? g.id = none) (depth : Nat) :
    (visit s (depth + 1) g m).answer =
      ((resolve s (visit s depth) g (m.set g.id .inProgress)).answer.1,
        (resolve s (visit s depth) g (m.set g.id .inProgress)).answer.2.set g.id
          (.decided (resolve s (visit s depth) g (m.set g.id .inProgress)).answer.1)) := by
  rw [visit, hm]
  rfl

/-! ## What a visit leaves alone -/

/-- All visits only decide gates that were not reached before. -/
def Keeps (v : Visit) : Prop := ∀ (p : Gate) (m : Marks), m.Extends (v p m).answer.2

theorem filterPasses_ext (hv : Keeps v) (m : Marks) (f : Filter) :
    m.Extends (filterPasses s v g m f).answer.2 := by
  cases f with
  | condition c => exact Marks.Extends.refl m
  | parent name =>
    rw [filterPasses]
    cases s.view.named? name with
    | none => exact Marks.Extends.refl m
    | some p => exact hv p m

theorem resolveFilters_ext (hv : Keeps v) (index : Nat) (filters : List Filter) (m : Marks) :
    m.Extends (resolveFilters s v g index filters m).answer.2 := by
  induction filters generalizing index m with
  | nil => exact Marks.Extends.refl m
  | cons f rest ih =>
    have hmore := filterPasses_ext (s := s) (g := g) hv m f
    rw [resolveFilters_cons]
    split
    · exact hmore.trans (ih (index + 1) _)
    · exact hmore

theorem resolve_ext (hv : Keeps v) (m : Marks) : m.Extends (resolve s v g m).answer.2 := by
  cases hid : g.container with
  | none =>
    rw [resolve, hid]
    exact resolveFilters_ext hv 0 g.filters m
  | some id =>
    cases hc : s.view.gate? id with
    | none =>
      simp only [resolve, hid, hc]
      exact Marks.Extends.refl m
    | some c =>
      rw [resolve_of_container hid hc]
      split
      · exact (hv c m).trans (resolveFilters_ext hv 0 g.filters _)
      · exact hv c m

theorem visit_ext (s : Scope) (depth : Nat) : Keeps (visit s depth) := by
  induction depth with
  | zero =>
    intro g m
    rw [visit]
    split <;> exact Marks.Extends.refl m
  | succ depth ih =>
    intro g m
    cases hm : m.find? g.id with
    | none =>
      rw [visit_of_unreached hm]
      exact Marks.Extends.of_set hm (resolve_ext ih _)
    | some p =>
      cases p with
      | decided d =>
        rw [visit_of_decided hm]
        exact Marks.Extends.refl m
      | inProgress =>
        rw [visit_of_inProgress hm]
        exact Marks.Extends.refl m

/-! ## What a visit finds out -/

/-- The decisions noted so far are the verdicts. -/
def Agrees (s : Scope) (h : Hierarchy) (m : Marks) : Prop :=
  ∀ g ∈ h.gates, ∀ d, m.find? g.id = some (.decided d) → d = s.verdict g

theorem Agrees.set_inProgress {m : Marks} (hm : Agrees s h m) (id : Nat) :
    Agrees s h (m.set id .inProgress) := by
  intro q hq d hd
  rw [Marks.find?_set] at hd
  split at hd
  · cases hd
  · exact hm q hq d hd

theorem Agrees.set_verdict {m : Marks} (hm : Agrees s h m) (hn : h.Numbered) (hg : g ∈ h.gates) :
    Agrees s h (m.set g.id (.decided (s.verdict g))) := by
  intro q hq d hd
  rw [Marks.find?_set] at hd
  split at hd
  · rename_i hid
    cases hd
    rw [hn.eq_of_id_eq hq hg hid]
  · exact hm q hq d hd

/-- A visit tells whether the gate is on and notes nothing but verdicts. -/
def Answers (s : Scope) (h : Hierarchy) (g : Gate) (r : Decision × Marks) : Prop :=
  (r.1.active = true ↔ s.Active g) ∧ Agrees s h r.2

theorem filterPasses_spec {f : Filter} {m : Marks} (hm : Agrees s h m)
    (hv : ∀ name p, f = .parent name → s.view.named? name = some p →
      Answers s h p (v p m).answer) :
    ((filterPasses s v g m f).answer.1 = true ↔ s.Passes s.Active g f) ∧
      Agrees s h (filterPasses s v g m f).answer.2 := by
  cases f with
  | condition c => exact ⟨Iff.rfl, hm⟩
  | parent name =>
    rw [filterPasses]
    cases hp : s.view.named? name with
    | none => exact ⟨by simp [Scope.Passes, hp], hm⟩
    | some p =>
      obtain ⟨hactive, hagrees⟩ := hv name p rfl hp
      exact ⟨by simpa [Scope.Passes, hp] using hactive, hagrees⟩

section

/- `m₀` are the marks with which `g` was entered, and visits to what `g` demands are right. -/
variable {m₀ : Marks} (hext : Keeps v)
  (hv : ∀ p m, s.Demands g p → Agrees s h m → m₀.Extends m → Answers s h p (v p m).answer)
include hext hv

/-- The filters that are left decide, once all filters before them pass. -/
theorem resolveFilters_spec (hc : s.ContainerOn s.Active g) {before rest : List Filter}
    {m : Marks} (hfilters : g.filters = before ++ rest)
    (hbefore : ∀ f ∈ before, s.Passes s.Active g f) (hm : Agrees s h m) (hm₀ : m₀.Extends m) :
    (resolveFilters s v g before.length rest m).answer.1 = s.filterVerdict g ∧
      Agrees s h (resolveFilters s v g before.length rest m).answer.2 := by
  induction rest generalizing before m with
  | nil =>
    rw [List.append_nil] at hfilters
    rw [← hfilters] at hbefore
    exact ⟨(Scope.filterVerdict_of_pass hbefore).symm, hm⟩
  | cons f rest ih =>
    obtain ⟨hpass, hagrees⟩ := filterPasses_spec (g := g) (v := v) (f := f) hm
      fun name p hf hp => hv p m (.parent hc (hf ▸ hfilters) hbefore hp) hm hm₀
    have hmore := filterPasses_ext (s := s) (g := g) hext m f
    rw [resolveFilters_cons]
    split
    · rename_i htrue
      have hbefore' : ∀ f' ∈ before ++ [f], s.Passes s.Active g f' := by
        intro f' hf'
        rcases List.mem_append.mp hf' with hf' | hf'
        · exact hbefore f' hf'
        · rw [List.mem_singleton.mp hf']
          exact hpass.mp htrue
      have hfilters' : g.filters = (before ++ [f]) ++ rest := by rw [hfilters]; simp
      have hnext := ih hfilters' hbefore' hagrees (hm₀.trans hmore)
      rw [List.length_append, List.length_singleton] at hnext
      exact hnext
    · rename_i hfalse
      have hfail : ¬s.Passes s.Active g f := fun hf => hfalse (hpass.mpr hf)
      exact ⟨(Scope.filterVerdict_of_fail hfilters hbefore hfail).symm, hagrees⟩

/-- Starting from the first filter, all filters decide. -/
theorem resolveFilters_zero_spec (hc : s.ContainerOn s.Active g) {m : Marks} (hm : Agrees s h m)
    (hm₀ : m₀.Extends m) :
    (resolveFilters s v g 0 g.filters m).answer.1 = s.filterVerdict g ∧
      Agrees s h (resolveFilters s v g 0 g.filters m).answer.2 := by
  have hfilters : g.filters = [] ++ g.filters := rfl
  exact resolveFilters_spec hext hv hc hfilters (by simp) hm hm₀

theorem resolve_spec (hm : Agrees s h m₀) :
    (resolve s v g m₀).answer.1 = s.verdict g ∧ Agrees s h (resolve s v g m₀).answer.2 := by
  cases hid : g.container with
  | none =>
    have hc : s.ContainerOn s.Active g := fun id' hid' => by rw [hid] at hid'; cases hid'
    simp only [resolve, Scope.verdict, hid]
    exact resolveFilters_zero_spec hext hv hc hm (Marks.Extends.refl m₀)
  | some id =>
    cases hfound : s.view.gate? id with
    | none =>
      simp only [resolve, Scope.verdict, hid, hfound]
      exact ⟨rfl, hm⟩
    | some c =>
      obtain ⟨hactive, hagrees⟩ := hv c m₀ (.container hid hfound) hm (Marks.Extends.refl m₀)
      rw [resolve_of_container hid hfound]
      simp only [Scope.verdict, hid, hfound]
      by_cases hon : s.Active c
      · have hc : s.ContainerOn s.Active g := by
          intro id' hid'
          rw [hid] at hid'
          cases hid'
          exact ⟨c, hfound, hon⟩
        rw [if_pos hon, if_pos (hactive.mpr hon)]
        exact resolveFilters_zero_spec hext hv hc hagrees (hext c m₀)
      · rw [if_neg hon, if_neg fun htrue => hon (hactive.mp htrue)]
        exact ⟨rfl, hagrees⟩

end

/-- `g` may be visited: the gates in progress demand it, and `depth` is enough for the gates that
were not reached. -/
structure Ready (s : Scope) (h : Hierarchy) (depth : Nat) (g : Gate) (m : Marks) : Prop where
  mem : g ∈ h.gates
  agrees : Agrees s h m
  demanded : ∀ q ∈ h.gates, m.find? q.id = some .inProgress → Relation.TransGen s.Demands q g
  depth : m.unreached h.gates ≤ depth

theorem Ready.depth_pos {depth : Nat} {m : Marks} (hr : Ready s h depth g m)
    (hmark : m.find? g.id = none) : 0 < depth := by
  have hless := Marks.unreached_set_lt (p := .inProgress) hr.mem hmark
  have henough := hr.depth
  omega

/-- Everything `g` demands is visited from marks in which `g` is in progress. -/
theorem Ready.of_demands (hn : h.Numbered) (hp : s.view.PartOf h) {depth : Nat} {m m' : Marks}
    {p : Gate} (hr : Ready s h (depth + 1) g m) (hmark : m.find? g.id = none)
    (hgp : s.Demands g p) (hm' : Agrees s h m') (hext : (m.set g.id .inProgress).Extends m') :
    Ready s h depth p m' where
  mem := by
    cases hgp with
    | container _ hfound => exact hp.mem_of_gate? hfound
    | parent _ _ _ hfound => exact hp.mem_of_named? hfound
  agrees := hm'
  demanded q hq hqm := by
    have hqm₀ := (hext.inProgress q.id).mp hqm
    rw [Marks.find?_set] at hqm₀
    split at hqm₀
    · rename_i hid
      rw [hn.eq_of_id_eq hq hr.mem hid]
      exact Relation.TransGen.single hgp
    · exact (hr.demanded q hq hqm₀).tail hgp
  depth := by
    have hfew := hext.unreached_le h.gates
    have hless := Marks.unreached_set_lt (p := .inProgress) hr.mem hmark
    have henough := hr.depth
    omega

theorem visit_spec_of_reached {depth : Nat} {m : Marks} {p : Progress}
    (hr : Ready s h depth g m) (hmark : m.find? g.id = some p) :
    Answers s h g (visit s depth g m).answer ∧
      (some p ≠ some .inProgress → (visit s depth g m).answer.1 = s.verdict g) := by
  cases p with
  | decided d =>
    have hd := hr.agrees g hr.mem d hmark
    rw [visit_of_decided hmark, hd]
    exact ⟨⟨Scope.verdict_active_iff, hr.agrees⟩, fun _ => rfl⟩
  | inProgress =>
    have hoff := Scope.not_active_of_cycle (hr.demanded g hr.mem hmark)
    rw [visit_of_inProgress hmark]
    exact ⟨⟨by simp [Decision.error, hoff], hr.agrees⟩, fun hne => absurd rfl hne⟩

/-- A visit tells whether `g` is on, and unless `g` is itself in progress, it gives its verdict. -/
theorem visit_spec (hn : h.Numbered) (hp : s.view.PartOf h) {depth : Nat} {m : Marks}
    (hr : Ready s h depth g m) :
    Answers s h g (visit s depth g m).answer ∧
      (m.find? g.id ≠ some .inProgress → (visit s depth g m).answer.1 = s.verdict g) := by
  induction depth generalizing g m with
  | zero =>
    cases hmark : m.find? g.id with
    | some p => exact visit_spec_of_reached hr hmark
    | none => exact absurd (hr.depth_pos hmark) (Nat.lt_irrefl 0)
  | succ depth ih =>
    cases hmark : m.find? g.id with
    | some p => exact visit_spec_of_reached hr hmark
    | none =>
      have hv : ∀ p m', s.Demands g p → Agrees s h m' →
          (m.set g.id .inProgress).Extends m' → Answers s h p (visit s depth p m').answer :=
        fun p m' hgp hm' hext => (ih (hr.of_demands hn hp hmark hgp hm' hext)).1
      obtain ⟨hverdict, hagrees⟩ :=
        resolve_spec (visit_ext s depth) hv (hr.agrees.set_inProgress g.id)
      rw [visit_of_unreached hmark, hverdict]
      exact ⟨⟨Scope.verdict_active_iff, hagrees.set_verdict hn hr.mem⟩, fun _ => rfl⟩

/-! ## One gate after another -/

/-- Marks between two decisions at the top: no gate is in progress, and verdicts are noted. -/
structure Settled (s : Scope) (h : Hierarchy) (m : Marks) : Prop where
  idle : ∀ id, m.find? id ≠ some .inProgress
  agrees : Agrees s h m

theorem settled_nil (s : Scope) (h : Hierarchy) : Settled s h [] :=
  ⟨fun _ => by simp [Marks.find?], fun _ _ _ hd => by simp [Marks.find?] at hd⟩

/-- Between two decisions any gate may be decided. -/
theorem Settled.ready (hp : s.view.PartOf h) {m : Marks} (hm : Settled s h m) (hg : g ∈ h.gates) :
    Ready s h s.view.size g m where
  mem := hg
  agrees := hm.agrees
  demanded q _ hq := absurd hq (hm.idle q.id)
  depth := by
    rw [hp.size]
    exact List.countP_le_length

theorem decide_spec (hn : h.Numbered) (hp : s.view.PartOf h) {m : Marks} (hg : g ∈ h.gates)
    (hm : Settled s h m) :
    (s.decide g m).answer.1 = s.verdict g ∧ Settled s h (s.decide g m).answer.2 := by
  obtain ⟨hanswer, hverdict⟩ := visit_spec hn hp (hm.ready hp hg)
  have hext := visit_ext s s.view.size g m
  exact ⟨hverdict (hm.idle g.id),
    fun id hid => hm.idle id ((hext.inProgress id).mp hid), hanswer.2⟩

theorem decideEach_spec (hn : h.Numbered) (hp : s.view.PartOf h) {gs : List Gate}
    (hgs : ∀ g ∈ gs, g ∈ h.gates) {m : Marks} (hm : Settled s h m) :
    (s.decideEach gs m).answer = gs.map fun g => (g, s.verdict g) := by
  induction gs generalizing m with
  | nil => rfl
  | cons g rest ih =>
    obtain ⟨hverdict, hsettled⟩ := decide_spec hn hp (hgs g List.mem_cons_self) hm
    have hrest := ih (fun g' hg' => hgs g' (List.mem_cons_of_mem g hg')) hsettled
    show (g, (s.decide g m).answer.1) :: (s.decideEach rest (s.decide g m).answer.2).answer = _
    rw [hverdict, hrest, List.map_cons]

end Resolver

/-- Gates of a loaded hierarchy, decided one after another with whatever part of it in view, get
their verdicts: the order, repetitions and cycles between the gates make no difference.  The
verdicts go by `Scope.Active`, which is the least predicate that a gate has just when its container
is found and has it and all its filters pass. -/
theorem decideEach_eq_verdicts {h : Hierarchy} (hl : h.Loaded) {v : View} (hv : v.PartOf h)
    (r : Request) (o : Options) {gs : List Gate} (hgs : ∀ g ∈ gs, g ∈ h.gates) :
    let s := (v.scope r o).answer
    IsLeast {on | ∀ g, on g ↔ s.ContainerOn on g ∧ ∀ f ∈ g.filters, s.Passes on g f} s.Active ∧
      (s.decideEach gs []).answer = gs.map fun g => (g, s.verdict g) := by
  intro s
  refine ⟨⟨fun g => Scope.active_iff, fun on hon g hg => ?_⟩, ?_⟩
  · exact hg.induction fun g' hc hf => (hon g').mpr ⟨hc, hf⟩
  · exact Resolver.decideEach_spec hl.numbered hv hgs (Resolver.settled_nil s h)

/-- Two gates that wait for each other, one through its filter and one through its container, and
a gate that is on. -/
def knot : Document where
  gates := [
    ("outer", { filters := [.condition (.rollout 100), .parent "INNER"],
                children := [("inner", {})] }),
    ("free", { filters := [.condition (.environment [])] }),
    ("heir", { filters := [.parent "Free"] })]

theorem decideEach_eq_verdicts_knot :
    let h : Hierarchy := { gates := knot.toGates }
    let v := h.view.hide [] ["free"]
    let s := (v.scope {} {}).answer
    let gs := h.gates.reverse ++ h.gates
    h.Loaded ∧ v.PartOf h ∧ (∀ g ∈ gs, g ∈ h.gates) ∧
      gs.map (fun g => (g.name, s.verdict g)) =
        [("inner", .containerInactive "outer"), ("heir", .filterFailed 0 .parent),
          ("free", .passed), ("outer", .filterFailed 1 .parent),
          ("outer", .filterFailed 1 .parent), ("free", .passed),
          ("heir", .filterFailed 0 .parent), ("inner", .containerInactive "outer")] := by
  intro h v s gs
  have hl : h.Loaded := ⟨knot, rfl⟩
  have hv : v.PartOf h := (View.partOf_view h).hide [] ["free"]
  have hgs : ∀ g ∈ gs, g ∈ h.gates := fun g hg => by simpa [gs] using hg
  have hall := (decideEach_eq_verdicts hl hv {} {} hgs).2
  refine ⟨hl, hv, hgs, ?_⟩
  have hnames := congrArg (List.map fun entry : Gate × Decision => (entry.1.name, entry.2)) hall
  rw [List.map_map] at hnames
  exact hnames.symm.trans rfl

end FeatureGates
