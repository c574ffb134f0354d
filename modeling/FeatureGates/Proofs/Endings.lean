import FeatureGates.Proofs.Exploration

/-!
Visits come to an end.

The rules below say what a visit does without a bound on its depth.  That a visit ends is that
there is a derivation by the rules, and as only one rule applies at a time, there is no other.  There
is one whatever the marks are to begin with, since every gate that is gone into leaves one gate
fewer to reach, and the depth that a visit is given is enough for it.

A derivation also tells which gates are resolved on the way.  None of them was reached before, each
of them is decided after, and no other mark is touched.
-/

namespace FeatureGates

theorem Noted.bind_eq_bind_answer {α β : Type} (n : Noted α) (f : α → Noted β) :
    n >>= f = n >>= fun _ => f n.answer := rfl

namespace Resolver

/-! ## Rules -/

/-- What there is to do for a gate. -/
inductive Task where
  | visit (g : Gate)
  | resolve (g : Gate)
  /-- The filters that are left, from number `index` on. -/
  | filters (g : Gate) (index : Nat) (rest : List Filter)

/-- A task that is begun with marks ends with an outcome.  The gates in the list are those that are
resolved, in the order in which that is begun. -/
inductive Ends (s : Scope) : Task → Marks → List Gate → Noted (Decision × Marks) → Prop
  | decided {g : Gate} {m : Marks} {d : Decision} (hm : m.find? g.id = some (.decided d)) :
      Ends s (.visit g) m [] (pure (d, m))
  | cycle {g : Gate} {m : Marks} (hm : m.find? g.id = some .inProgress) :
      Ends s (.visit g) m []
        (note (.cycle g.name g.path) >>= fun _ => pure (Decision.error .cycleDetected, m))
  | unreached {g : Gate} {m : Marks} {ran : List Gate} {n : Noted (Decision × Marks)}
      (hm : m.find? g.id = none) (hn : Ends s (.resolve g) (m.set g.id .inProgress) ran n) :
      Ends s (.visit g) m (g :: ran)
        (n >>= fun _ => pure (n.answer.1, n.answer.2.set g.id (.decided n.answer.1)))
  | top {g : Gate} {m : Marks} {ran : List Gate} {n : Noted (Decision × Marks)}
      (hg : g.container = none) (hn : Ends s (.filters g 0 g.filters) m ran n) :
      Ends s (.resolve g) m ran n
  | containerHidden {g : Gate} {m : Marks} {id : Nat} (hg : g.container = some id)
      (hc : s.view.gate? id = none) :
      Ends s (.resolve g) m [] (pure (Decision.error .gateNotFound, m))
  | containerOff {g c : Gate} {m : Marks} {id : Nat} {ran : List Gate}
      {n : Noted (Decision × Marks)} (hg : g.container = some id)
      (hc : s.view.gate? id = some c) (hn : Ends s (.visit c) m ran n)
      (hoff : n.answer.1.active = false) :
      Ends s (.resolve g) m ran
        (n >>= fun _ => pure (Decision.containerInactive c.name, n.answer.2))
  | containerOn {g c : Gate} {m : Marks} {id : Nat} {ran ran' : List Gate}
      {n n' : Noted (Decision × Marks)} (hg : g.container = some id)
      (hc : s.view.gate? id = some c) (hn : Ends s (.visit c) m ran n)
      (hon : n.answer.1.active = true)
      (hn' : Ends s (.filters g 0 g.filters) n.answer.2 ran' n') :
      Ends s (.resolve g) m (ran ++ ran') (n >>= fun _ => n')
  | noFilters {g : Gate} {m : Marks} {index : Nat} :
      Ends s (.filters g index []) m [] (pure (Decision.passed, m))
  | holds {g : Gate} {m : Marks} {index : Nat} {c : Condition} {rest : List Filter}
      {ran : List Gate} {n : Noted (Decision × Marks)}
      (hc : c.holds (s.circumstances g.name) = true)
      (hn : Ends s (.filters g (index + 1) rest) m ran n) :
      Ends s (.filters g index (.condition c :: rest)) m ran n
  | fails {g : Gate} {m : Marks} {index : Nat} {c : Condition} {rest : List Filter}
      (hc : c.holds (s.circumstances g.name) = false) :
      Ends s (.filters g index (.condition c :: rest)) m []
        (pure (Decision.filterFailed index (Filter.condition c).kind, m))
  | parentUnknown {g : Gate} {m : Marks} {index : Nat} {name : String} {rest : List Filter}
      (hp : s.view.named? name = none) :
      Ends s (.filters g index (.parent name :: rest)) m []
        (note (.unknownParent name) >>= fun _ => pure (Decision.filterFailed index .parent, m))
  | parentOff {g p : Gate} {m : Marks} {index : Nat} {name : String} {rest : List Filter}
      {ran : List Gate} {n : Noted (Decision × Marks)} (hp : s.view.named? name = some p)
      (hn : Ends s (.visit p) m ran n) (hoff : n.answer.1.active = false) :
      Ends s (.filters g index (.parent name :: rest)) m ran
        (n >>= fun _ => pure (Decision.filterFailed index .parent, n.answer.2))
  | parentOn {g p : Gate} {m : Marks} {index : Nat} {name : String} {rest : List Filter}
      {ran ran' : List Gate} {n n' : Noted (Decision × Marks)}
      (hp : s.view.named? name = some p) (hn : Ends s (.visit p) m ran n)
      (hon : n.answer.1.active = true)
      (hn' : Ends s (.filters g (index + 1) rest) n.answer.2 ran' n') :
      Ends s (.filters g index (.parent name :: rest)) m (ran ++ ran') (n >>= fun _ => n')

variable {s : Scope}

/-- There is one way to end. -/
theorem Ends.unique {t : Task} {m : Marks} {ran ran' : List Gate}
    {n n' : Noted (Decision × Marks)} (hn : Ends s t m ran n) (hn' : Ends s t m ran' n') :
    ran = ran' ∧ n = n' := by
  -- Rules for one task exclude each other by what they ask of the marks, the view or a condition.
  induction hn generalizing ran' n' with
  | decided | cycle | containerHidden | noFilters | fails | parentUnknown => cases hn' <;> grind
  | unreached _ _ ih | top _ _ ih | containerOff _ _ _ _ ih | holds _ _ ih | parentOff _ _ _ ih =>
    cases hn' <;> grind
  | containerOn _ _ _ _ _ ih ih' | parentOn _ _ _ _ ih ih' => cases hn' <;> grind

/-! ## What is left behind -/

/-- From `m` to `m'` the gates `ran` were decided, none of which was reached before, and no other
gate was touched. -/
structure Settles (m : Marks) (ran : List Gate) (m' : Marks) : Prop where
  nodup : (ran.map Gate.id).Nodup
  fresh : ∀ g ∈ ran, m.find? g.id = none
  decided : ∀ g ∈ ran, m'.Decided g.id
  untouched : ∀ id ∉ ran.map Gate.id, m'.find? id = m.find? id

theorem Settles.refl (m : Marks) : Settles m [] m :=
  ⟨List.nodup_nil, by simp, by simp, fun _ _ => rfl⟩

theorem Settles.find?_of_reached {m m' : Marks} {ran : List Gate} (hm : Settles m ran m')
    {id : Nat} (hid : m.find? id ≠ none) : m'.find? id = m.find? id := by
  refine hm.untouched id fun hmem => ?_
  obtain ⟨g, hg, rfl⟩ := List.mem_map.mp hmem
  exact hid (hm.fresh g hg)

theorem Settles.extends {m m' : Marks} {ran : List Gate} (hm : Settles m ran m') :
    m.Extends m' where
  inProgress id := by
    by_cases hid : id ∈ ran.map Gate.id
    · obtain ⟨g, hg, rfl⟩ := List.mem_map.mp hid
      obtain ⟨d, hd⟩ := hm.decided g hg
      simp [hd, hm.fresh g hg]
    · rw [hm.untouched id hid]
  decided id d hd := by rw [hm.find?_of_reached (by simp [hd]), hd]

theorem Settles.trans {m m' m'' : Marks} {ran ran' : List Gate} (hm : Settles m ran m')
    (hm' : Settles m' ran' m'') : Settles m (ran ++ ran') m'' where
  nodup := by
    rw [List.map_append, List.nodup_append]
    refine ⟨hm.nodup, hm'.nodup, fun id hid id' hid' heq => ?_⟩
    obtain ⟨g, hg, rfl⟩ := List.mem_map.mp hid
    obtain ⟨g', hg', rfl⟩ := List.mem_map.mp hid'
    obtain ⟨d, hd⟩ := hm.decided g hg
    rw [heq, hm'.fresh g' hg'] at hd
    cases hd
  fresh g hg := by
    rcases List.mem_append.mp hg with hg | hg
    · exact hm.fresh g hg
    · by_contra hreached
      exact hreached ((hm.find?_of_reached hreached).symm.trans (hm'.fresh g hg))
  decided g hg := by
    rcases List.mem_append.mp hg with hg | hg
    · exact hm'.extends.of_decided (hm.decided g hg)
    · exact hm'.decided g hg
  untouched id hid := by
    rw [List.map_append, List.mem_append, not_or] at hid
    rw [hm'.untouched id hid.2, hm.untouched id hid.1]

/-- Going into a gate that was not reached before and coming out with its decision. -/
theorem Settles.of_set {g : Gate} {m m' : Marks} {ran : List Gate} {d : Decision}
    (hg : m.find? g.id = none) (hm : Settles (m.set g.id .inProgress) ran m') :
    Settles m (g :: ran) (m'.set g.id (.decided d)) where
  nodup := by
    rw [List.map_cons, List.nodup_cons]
    refine ⟨fun hmem => ?_, hm.nodup⟩
    obtain ⟨g', hg', hid⟩ := List.mem_map.mp hmem
    have hfresh := hm.fresh g' hg'
    rw [Marks.find?_set, if_pos hid] at hfresh
    cases hfresh
  fresh q hq := by
    rcases List.mem_cons.mp hq with rfl | hq
    · exact hg
    · have hfresh := hm.fresh q hq
      rw [Marks.find?_set] at hfresh
      split at hfresh
      · cases hfresh
      · exact hfresh
  decided q hq := by
    rw [Marks.decided_set_decided]
    rcases List.mem_cons.mp hq with rfl | hq
    · exact Or.inl rfl
    · exact Or.inr (hm.decided q hq)
  untouched id hid := by
    rw [List.map_cons, List.mem_cons, not_or] at hid
    have hsame := hm.untouched id hid.2
    rw [Marks.find?_set, if_neg hid.1] at hsame ⊢
    exact hsame

theorem Ends.settles {t : Task} {m : Marks} {ran : List Gate} {n : Noted (Decision × Marks)}
    (hn : Ends s t m ran n) : Settles m ran n.answer.2 := by
  induction hn with
  | decided | cycle | containerHidden | noFilters | fails | parentUnknown => exact Settles.refl _
  | unreached hm _ ih => exact ih.of_set hm
  | top _ _ ih | containerOff _ _ _ _ ih | holds _ _ ih | parentOff _ _ _ ih => exact ih
  | containerOn _ _ _ _ _ ih ih' | parentOn _ _ _ _ ih ih' => exact ih.trans ih'

/-- Unless it is in progress, a gate that was visited is decided. -/
theorem Ends.decided_of_visit {g : Gate} {m : Marks} {ran : List Gate}
    {n : Noted (Decision × Marks)} (hn : Ends s (.visit g) m ran n)
    (hg : m.find? g.id ≠ some .inProgress) :
    n.answer.2.find? g.id = some (.decided n.answer.1) := by
  cases hn with
  | decided hm => exact hm
  | cycle hm => exact absurd hm hg
  | unreached hm _ => exact (Marks.find?_set _ _ _ _).trans (if_pos rfl)

/-! ## Every visit ends -/

section

variable {h : Hierarchy} (hp : s.view.PartOf h) {v : Visit} {g : Gate} {m₀ : Marks}
  (hext : Keeps v)
  (hv : ∀ p ∈ h.gates, ∀ m, m₀.Extends m → ∃ ran, Ends s (.visit p) m ran (v p m))
include hp hext hv

theorem resolveFilters_ends (index : Nat) (rest : List Filter) {m : Marks} (hm : m₀.Extends m) :
    ∃ ran, Ends s (.filters g index rest) m ran (resolveFilters s v g index rest m) := by
  induction rest generalizing index m with
  | nil => exact ⟨[], .noFilters⟩
  | cons f rest ih =>
    cases f with
    | condition c =>
      simp only [resolveFilters, filterPasses, pure_bind]
      by_cases hc : c.holds (s.circumstances g.name) = true
      · obtain ⟨ran, hn⟩ := ih (index + 1) hm
        rw [if_pos hc]
        exact ⟨ran, .holds hc hn⟩
      · rw [if_neg hc]
        exact ⟨[], .fails (by simpa using hc)⟩
    | parent name =>
      simp only [resolveFilters, filterPasses]
      cases hfound : s.view.named? name with
      | none =>
        simp only [bind_assoc, pure_bind]
        exact ⟨[], .parentUnknown hfound⟩
      | some p =>
        obtain ⟨ran, hn⟩ := hv p (hp.mem_of_named? hfound) m hm
        simp only [bind_assoc, pure_bind]
        rw [Noted.bind_eq_bind_answer]
        by_cases hon : (v p m).answer.1.active = true
        · obtain ⟨ran', hn'⟩ := ih (index + 1) (hm.trans (hext p m))
          rw [if_pos hon]
          exact ⟨ran ++ ran', .parentOn hfound hn hon hn'⟩
        · rw [if_neg hon]
          exact ⟨ran, .parentOff hfound hn (by simpa using hon)⟩

theorem resolve_ends : ∃ ran, Ends s (.resolve g) m₀ ran (resolve s v g m₀) := by
  cases hid : g.container with
  | none =>
    obtain ⟨ran, hn⟩ := resolveFilters_ends (g := g) hp hext hv 0 g.filters (Marks.Extends.refl m₀)
    simp only [resolve, hid]
    exact ⟨ran, .top hid hn⟩
  | some id =>
    simp only [resolve, hid]
    cases hfound : s.view.gate? id with
    | none => exact ⟨[], .containerHidden hid hfound⟩
    | some c =>
      obtain ⟨ran, hn⟩ := hv c (hp.mem_of_gate? hfound) m₀ (Marks.Extends.refl m₀)
      show ∃ ran, Ends s _ m₀ ran (v c m₀ >>= _)
      rw [Noted.bind_eq_bind_answer]
      by_cases hon : (v c m₀).answer.1.active = true
      · obtain ⟨ran', hn'⟩ := resolveFilters_ends (g := g) hp hext hv 0 g.filters (hext c m₀)
        rw [if_pos hon]
        exact ⟨ran ++ ran', .containerOn hid hfound hn hon hn'⟩
      · rw [if_neg hon]
        exact ⟨ran, .containerOff hid hfound hn (by simpa using hon)⟩

end

theorem visit_ends_of_reached {g : Gate} {m : Marks} {progress : Progress}
    (hm : m.find? g.id = some progress) (depth : Nat) :
    ∃ ran, Ends s (.visit g) m ran (visit s depth g m) := by
  rw [visit.eq_def, hm]
  cases progress with
  | inProgress => exact ⟨[], .cycle hm⟩
  | decided d => exact ⟨[], .decided hm⟩

/-- A visit that may go as deep as there are gates left to reach ends by the rules. -/
theorem visit_ends {h : Hierarchy} (hp : s.view.PartOf h) {depth : Nat} {g : Gate}
    (hg : g ∈ h.gates) {m : Marks} (hdepth : m.unreached h.gates ≤ depth) :
    ∃ ran, Ends s (.visit g) m ran (visit s depth g m) := by
  induction depth generalizing g m with
  | zero =>
    cases hm : m.find? g.id with
    | some progress => exact visit_ends_of_reached hm 0
    | none =>
      have hless := Marks.unreached_set_lt (p := .inProgress) hg hm
      omega
  | succ depth ih =>
    cases hm : m.find? g.id with
    | some progress => exact visit_ends_of_reached hm (depth + 1)
    | none =>
      have hv : ∀ p ∈ h.gates, ∀ m', (m.set g.id .inProgress).Extends m' →
          ∃ ran, Ends s (.visit p) m' ran (visit s depth p m') := by
        intro p hpg m' hm'
        have hfew := hm'.unreached_le h.gates
        have hless := Marks.unreached_set_lt (p := .inProgress) hg hm
        exact ih hpg (by omega)
      obtain ⟨ran, hn⟩ := resolve_ends (g := g) hp (visit_ext s depth) hv
      rw [visit, hm]
      exact ⟨g :: ran, .unreached hm hn⟩

theorem decide_ends {h : Hierarchy} (hp : s.view.PartOf h) {g : Gate} (hg : g ∈ h.gates)
    (m : Marks) : ∃ ran, Ends s (.visit g) m ran (s.decide g m) := by
  refine visit_ends hp hg ?_
  rw [hp.size]
  exact List.countP_le_length

/-- Deciding `g` from the marks `m`, at the top of an evaluation or below, comes to its end and
resolves the gates `ran` on the way. -/
structure Returns (s : Scope) (h : Hierarchy) (g : Gate) (m : Marks) (ran : List Gate) : Prop where
  ends : Ends s (.visit g) m ran (s.decide g m)
  unique : ∀ ran' n, Ends s (.visit g) m ran' n → ran' = ran ∧ n = s.decide g m
  /-- More depth than there are gates to reach changes nothing. -/
  deeper : ∀ depth, m.unreached h.gates ≤ depth → visit s depth g m = s.decide g m
  settles : Settles m ran (s.decide g m).answer.2
  keeps : m.Extends (s.decide g m).answer.2
  decided : m.find? g.id ≠ some .inProgress →
    (s.decide g m).answer.2.find? g.id = some (.decided (s.decide g m).answer.1)

theorem decide_returns {h : Hierarchy} (hp : s.view.PartOf h) {g : Gate} (hg : g ∈ h.gates)
    (m : Marks) : ∃ ran, Returns s h g m ran := by
  obtain ⟨ran, hn⟩ := decide_ends hp hg m
  refine ⟨ran, hn, fun ran' n hn' => hn'.unique hn, fun depth hdepth => ?_, hn.settles,
    hn.settles.extends, hn.decided_of_visit⟩
  obtain ⟨ran', hn'⟩ := visit_ends hp hg hdepth
  exact (hn'.unique hn).2

end Resolver
end FeatureGates
