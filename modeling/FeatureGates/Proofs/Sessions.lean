import FeatureGates.Proofs.Endings

/-!
Whole requests.  The marks of a request are thrown away with its last answer.  Here they are kept,
so as to see what a request leaves behind: it visits some gates one after another on the same marks,
and nothing else that it does touches them.  No gate is resolved twice for it, however often it is
asked about or referred to, and at its end no gate is in progress.
-/

namespace FeatureGates

/-- A computation on the marks of a request. -/
abbrev Session := StateT Marks Noted

theorem Noted.bind_pure_eq_map {α β : Type} (n : Noted α) (f : α → β) :
    n >>= (fun a => pure (f a)) = n.map f := by
  show Noted.mk (f n.answer) (n.notices ++ []) = ⟨f n.answer, n.notices⟩
  rw [List.append_nil]

namespace Session

variable {α β : Type}

theorem run'_bind (x : Session α) (f : α → Session β) (m : Marks) :
    (x >>= f).run' m = x.run m >>= fun p => (f p.1).run' p.2 := by
  rw [StateT.run'_eq, StateT.run_bind, map_bind]
  rfl

theorem run'_lift_bind (n : Noted α) (f : α → Session β) (m : Marks) :
    (liftM n >>= f : Session β).run' m = n >>= fun a => (f a).run' m := by
  rw [run'_bind, StateT.run_monadLift, bind_assoc]
  rfl

/-- What is done last without the marks is done with the answer. -/
theorem run'_bind_lift (x : Session α) (f : α → Noted β) (m : Marks) :
    (x >>= fun a => (liftM (f a) : Session β)).run' m = x.run' m >>= f := by
  rw [run'_bind, StateT.run'_eq, bind_map_left]
  refine bind_congr fun p => ?_
  rw [StateT.run'_eq, StateT.run_monadLift, map_bind]
  exact bind_pure _

theorem run'_bind_pure (x : Session α) (f : α → β) (m : Marks) :
    (x >>= fun a => (pure (f a) : Session β)).run' m = x.run' m >>= fun a => pure (f a) :=
  run'_bind_lift x (fun a => pure (f a)) m

end Session

/-! ## Requests as sessions -/

namespace Scope

def decideIn (s : Scope) (g : Gate) : Session Decision := s.decide g

def decideEachIn (s : Scope) : List Gate → Session (List (Gate × Decision))
  | [] => pure []
  | g :: rest => do
    let decision ← s.decideIn g
    return (g, decision) :: (← s.decideEachIn rest)

def addNamedIn (s : Scope) : List String → Report → Session Report
  | [], report => pure report
  | name :: rest, report =>
    match s.view.named? name with
    | none => s.addNamedIn rest (report.add name (Decision.error .gateNotFound))
    | some g => do
      let decision ← s.decideIn g
      s.addNamedIn rest (report.add g.name decision)

theorem run'_decideEachIn (s : Scope) (gs : List Gate) (m : Marks) :
    (s.decideEachIn gs).run' m = s.decideEach gs m := by
  induction gs generalizing m with
  | nil => rfl
  | cons g rest ih =>
    rw [decideEachIn, decideEach, Session.run'_bind]
    refine bind_congr fun p => ?_
    rw [Session.run'_bind_pure, ih p.2]

theorem run'_addNamedIn (s : Scope) (names : List String) (m : Marks) (report : Report) :
    (s.addNamedIn names report).run' m = s.addNamed names m report := by
  induction names generalizing m report with
  | nil => rfl
  | cons name rest ih =>
    rw [addNamedIn, addNamed]
    cases s.view.named? name with
    | none => exact ih m _
    | some g => exact (Session.run'_bind _ _ m).trans (bind_congr fun p => ih p.2 _)

end Scope

namespace View

def decisionIn (v : View) (name : String) (r : Request) (o : Options) : Session Decision := do
  let s ← v.scope r o
  match v.named? name with
  | none => return Decision.error .gateNotFound
  | some g => return r.overrides.amend name (← s.decideIn g)

def reportOnIn (v : View) (names : List String) (r : Request) (o : Options) : Session Report := do
  let s ← v.scope r o
  let report ← s.addNamedIn names .empty
  report.amend v r.overrides

def decideAllIn (v : View) (r : Request) (o : Options) : Session (List (Gate × Decision)) := do
  let s ← v.scope r o
  s.decideEachIn v.gates

def reportIn (v : View) (r : Request) (o : Options) : Session Report := do
  let decisions ← v.decideAllIn r o
  let computed : Report :=
    decisions.foldl (fun report (g, decision) => report.add g.name decision) .empty
  computed.amend v r.overrides

def eachDecisionIn (v : View) (r : Request) (o : Options) : Session (List (Gate × Decision)) := do
  let decisions ← v.decideAllIn r o
  return decisions.map fun (g, decision) => (g, r.overrides.amend g.name decision)

theorem run'_decisionIn (v : View) (name : String) (r : Request) (o : Options) :
    (v.decisionIn name r o).run' [] = v.decision name r o := by
  rw [decisionIn, decision, Session.run'_lift_bind]
  refine bind_congr fun s => ?_
  cases v.named? name with
  | none => rfl
  | some g => exact Session.run'_bind _ _ _

theorem run'_reportOnIn (v : View) (names : List String) (r : Request) (o : Options) :
    (v.reportOnIn names r o).run' [] = v.reportOn names r o := by
  rw [reportOnIn, reportOn, Session.run'_lift_bind]
  refine bind_congr fun s => ?_
  rw [Session.run'_bind_lift, s.run'_addNamedIn]

theorem run'_decideAllIn (v : View) (r : Request) (o : Options) :
    (v.decideAllIn r o).run' [] = v.decideAll r o := by
  rw [decideAllIn, decideAll, Session.run'_lift_bind]
  exact bind_congr fun s => s.run'_decideEachIn v.gates []

theorem run'_reportIn (v : View) (r : Request) (o : Options) :
    (v.reportIn r o).run' [] = v.report r o := by
  rw [reportIn, report, Session.run'_bind_lift, run'_decideAllIn]
  rfl

theorem run'_eachDecisionIn (v : View) (r : Request) (o : Options) :
    (v.eachDecisionIn r o).run' [] = v.eachDecision r o := by
  rw [eachDecisionIn, Session.run'_bind_pure, run'_decideAllIn, Noted.bind_pure_eq_map]
  rfl

end View

/-! ## What a request visits -/

/-- No gate is in progress. -/
def Marks.Idle (m : Marks) : Prop := ∀ id, m.find? id ≠ some .inProgress

theorem Marks.idle_nil : Marks.Idle [] := fun _ => nofun

theorem Marks.Extends.idle {m m' : Marks} (hm : m.Extends m') (hidle : m.Idle) : m'.Idle :=
  fun id hid => hidle id ((hm.inProgress id).mp hid)

namespace Resolver

/-- Gates are visited one after another on the same marks. -/
inductive EndsEach (s : Scope) : List Gate → Marks → List Gate → Marks → Prop
  | nil {m : Marks} : EndsEach s [] m [] m
  | cons {g : Gate} {rest ran ran' : List Gate} {m m' : Marks} {n : Noted (Decision × Marks)}
      (hn : Ends s (.visit g) m ran n) (hrest : EndsEach s rest n.answer.2 ran' m') :
      EndsEach s (g :: rest) m (ran ++ ran') m'

variable {s : Scope} {gs ran : List Gate} {m m' : Marks}

theorem EndsEach.settles (hm : EndsEach s gs m ran m') : Settles m ran m' := by
  induction hm with
  | nil => exact Settles.refl _
  | cons hn _ ih => exact hn.settles.trans ih

theorem EndsEach.decided (hm : EndsEach s gs m ran m') (hidle : m.Idle) :
    ∀ g ∈ gs, m'.Decided g.id := by
  induction hm with
  | nil => exact fun g hg => absurd hg List.not_mem_nil
  | cons hn hrest ih =>
    refine List.forall_mem_cons.mpr ⟨?_, ih (hn.settles.extends.idle hidle)⟩
    exact hrest.settles.extends.of_decided ⟨_, hn.decided_of_visit (hidle _)⟩

section

variable {h : Hierarchy} (hp : s.view.PartOf h)
include hp

theorem decideEachIn_ends (hgs : ∀ g ∈ gs, g ∈ h.gates) (m : Marks) :
    ∃ ran, EndsEach s gs m ran ((s.decideEachIn gs).run m).answer.2 := by
  induction gs generalizing m with
  | nil => exact ⟨[], .nil⟩
  | cons g rest ih =>
    obtain ⟨hg, hrest⟩ := List.forall_mem_cons.mp hgs
    obtain ⟨ran, hn⟩ := decide_ends hp hg m
    obtain ⟨ran', hm'⟩ := ih hrest (s.decide g m).answer.2
    exact ⟨ran ++ ran', .cons hn hm'⟩

theorem addNamedIn_ends (names : List String) (m : Marks) (report : Report) :
    ∃ ran, EndsEach s (names.filterMap s.view.named?) m ran
      ((s.addNamedIn names report).run m).answer.2 := by
  induction names generalizing m report with
  | nil => exact ⟨[], .nil⟩
  | cons name rest ih =>
    rw [Scope.addNamedIn, List.filterMap_cons]
    cases hfound : s.view.named? name with
    | none => exact ih m _
    | some g =>
      obtain ⟨ran, hn⟩ := decide_ends hp (hp.mem_of_named? hfound) m
      obtain ⟨ran', hm'⟩ := ih (s.decide g m).answer.2 (report.add g.name (s.decide g m).answer.1)
      exact ⟨ran ++ ran', .cons hn hm'⟩

end

end Resolver

/-- The session is an evaluation with its marks kept: it visits gates one after another, none of
which is resolved twice and all of which are decided at the end, and leaves no gate in progress. -/
structure Session.Completes {α : Type} (x : Session α) (n : Noted α) (s : Scope) (gs : List Gate) :
    Prop where
  answer : x.run' [] = n
  ends : ∃ ran, Resolver.EndsEach s gs [] ran (x.run []).answer.2 ∧ (ran.map Gate.id).Nodup
  decided : ∀ g ∈ gs, (x.run []).answer.2.Decided g.id
  idle : (x.run []).answer.2.Idle

theorem Session.Completes.of_endsEach {α : Type} {x : Session α} {n : Noted α} {s : Scope}
    {gs ran : List Gate} (hanswer : x.run' [] = n)
    (hends : Resolver.EndsEach s gs [] ran (x.run []).answer.2) : x.Completes n s gs where
  answer := hanswer
  ends := ⟨ran, hends, hends.settles.nodup⟩
  decided := hends.decided Marks.idle_nil
  idle := hends.settles.extends.idle Marks.idle_nil

namespace View

section

variable {h : Hierarchy} {v : View} (hv : v.PartOf h) (r : Request) (o : Options)
include hv

theorem decisionIn_completes (name : String) : (v.decisionIn name r o).Completes
    (v.decision name r o) (v.scope r o).answer (v.named? name).toList := by
  obtain ⟨ran, hends⟩ : ∃ ran, Resolver.EndsEach (v.scope r o).answer (v.named? name).toList [] ran
      ((v.decisionIn name r o).run []).answer.2 := by
    rw [decisionIn]
    cases hfound : v.named? name with
    | none => exact ⟨[], .nil⟩
    | some g =>
      obtain ⟨ran, hn⟩ := Resolver.decide_ends (s := (v.scope r o).answer) hv
        (hv.mem_of_named? hfound) []
      exact ⟨ran ++ [], .cons hn .nil⟩
  exact .of_endsEach (v.run'_decisionIn name r o) hends

theorem reportOnIn_completes (names : List String) : (v.reportOnIn names r o).Completes
    (v.reportOn names r o) (v.scope r o).answer (names.filterMap v.named?) := by
  obtain ⟨ran, hends⟩ := Resolver.addNamedIn_ends (s := (v.scope r o).answer) hv names [] .empty
  exact .of_endsEach (v.run'_reportOnIn names r o) hends

theorem decideAllIn_ends : ∃ ran, Resolver.EndsEach (v.scope r o).answer v.gates [] ran
    ((v.decideAllIn r o).run []).answer.2 := by
  refine Resolver.decideEachIn_ends (s := (v.scope r o).answer) hv (fun g hg => ?_) []
  obtain ⟨id, -, hid⟩ := List.mem_filterMap.mp hg
  exact hv.mem_of_gate? hid

theorem reportIn_completes : (v.reportIn r o).Completes (v.report r o) (v.scope r o).answer
    v.gates := by
  obtain ⟨ran, hends⟩ := decideAllIn_ends hv r o
  exact .of_endsEach (v.run'_reportIn r o) hends

theorem eachDecisionIn_completes : (v.eachDecisionIn r o).Completes (v.eachDecision r o)
    (v.scope r o).answer v.gates := by
  obtain ⟨ran, hends⟩ := decideAllIn_ends hv r o
  exact .of_endsEach (v.run'_eachDecisionIn r o) hends

end

/-- Whatever leads back to whatever and whatever is hidden, deciding a gate comes to an end from any
marks, and so does every request.  What was in progress is still in progress and what was decided
has kept its decision, what was gone into is decided, and no gate is gone into twice in a request,
at the end of which none is in progress. -/
theorem evaluations_end {h : Hierarchy} {v : View} (hv : v.PartOf h) (r : Request)
    (o : Options) :
    let s := (v.scope r o).answer
    (∀ g ∈ h.gates, ∀ m, ∃ ran, Resolver.Returns s h g m ran) ∧
      (∀ name, (v.decisionIn name r o).Completes (v.decision name r o) s
        (v.named? name).toList) ∧
      (∀ names, (v.reportOnIn names r o).Completes (v.reportOn names r o) s
        (names.filterMap v.named?)) ∧
      (v.reportIn r o).Completes (v.report r o) s v.gates ∧
      (v.eachDecisionIn r o).Completes (v.eachDecision r o) s v.gates :=
  ⟨fun _ hg m => Resolver.decide_returns (s := (v.scope r o).answer) hv hg m,
    decisionIn_completes hv r o, reportOnIn_completes hv r o, reportIn_completes hv r o,
    eachDecisionIn_completes hv r o⟩

theorem evaluations_end_knot :
    let h : Hierarchy := { gates := knot.toGates }
    let v := h.view.hide [] ["free"]
    let s := (v.scope {} {}).answer
    let m : Marks := [(3, .inProgress), (1, .decided .passed)]
    v.PartOf h ∧ ((v.reportIn {} {}).run []).answer.2.Idle ∧
      ∃ outer ∈ h.gates, (∃ ran, Resolver.Returns s h outer m ran) ∧
        (s.decide outer m).answer = (.filterFailed 1 .parent,
          [(0, .decided (.filterFailed 1 .parent)), (0, .inProgress)] ++ m) := by
  intro h v s m
  have hv : v.PartOf h := (View.partOf_view h).hide [] ["free"]
  obtain ⟨hreturns, -, -, hreport, -⟩ := evaluations_end hv {} {}
  have houter : h.gates[0] ∈ h.gates := List.getElem_mem _
  exact ⟨hv, hreport.idle, h.gates[0], houter, hreturns _ houter m, rfl⟩

end View
end FeatureGates
