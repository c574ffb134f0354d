import FeatureGates.Evaluator
import FeatureGates.Proofs.Merging

/-!
Evaluations with an index.

Reports are made by going through gates one after another, and flights and overrides come later.
Here all of it is done on a report that has its index with it: gates are only added that the index
does not have, and flights ask the index for gates.  Each evaluation comes to the report of the
evaluation without an index and gives the same notices, and the index that it leaves behind has the
names of the gates in the report and nothing else.
-/

namespace FeatureGates

/-- Adds the decisions on the gates of the given names. -/
def Scope.addNamedIndexed (s : Scope) :
    List String → Marks → IndexedReport → Noted IndexedReport
  | [], _, x => pure x
  | name :: rest, marks, x =>
    match s.view.named? name with
    | none => s.addNamedIndexed rest marks (x.add name (Decision.error .gateNotFound))
    | some g => do
      let (decision, marks) ← s.decide g marks
      s.addNamedIndexed rest marks (x.add g.name decision)

namespace View

/-- The report on all gates, without overrides. -/
def computedIndexed (v : View) (r : Request) (o : Options) : Noted IndexedReport :=
  (v.decideAll r o).map fun decisions =>
    decisions.foldl (fun (x : IndexedReport) (g, decision) => x.add g.name decision) .empty

def reportIndexed (v : View) (r : Request) (o : Options) : Noted IndexedReport := do
  (← v.computedIndexed r o).amend v r.overrides

def reportOnIndexed (v : View) (names : List String) (r : Request) (o : Options) :
    Noted IndexedReport := do
  let s ← v.scope r o
  (← s.addNamedIndexed names [] .empty).amend v r.overrides

end View

/-- The report on all gates together with the flights, which `listed` lists in some order. -/
def Evaluator.reportWithFlightsIndexed (e : Evaluator) (listed : Flights → List (String × String))
    (r : Request) (cancelled : Option Nat) : Noted IndexedReport := do
  let flights ← e.flights r cancelled
  let computed ← e.view.computedIndexed r e.options
  let joined ← computed.addListed e.settings.collisionPolicy (listed flights)
  joined.amend e.view r.overrides

/-! ## The same reports -/

namespace IndexedReport

theorem report_foldl_add {α : Type} (l : List α) (name : α → String) (decision : α → Decision)
    (x : IndexedReport) :
    (l.foldl (fun (x : IndexedReport) a => x.add (name a) (decision a)) x).report =
      l.foldl (fun (r : Report) a => r.add (name a) (decision a)) x.report := by
  induction l generalizing x with
  | nil => rfl
  | cons a rest ih => rw [List.foldl_cons, List.foldl_cons, ih, report_add]

theorem map_report_bind_amend (n : Noted IndexedReport) (v : View) (o : Overrides) :
    (n >>= fun x => x.amend v o).map (·.report) =
      n.map (·.report) >>= fun report => report.amend v o := by
  rw [Noted.map_bind, Noted.bind_map]
  exact bind_congr fun x => x.map_report_amend v o

end IndexedReport

theorem Scope.map_report_addNamedIndexed (s : Scope) (names : List String) (m : Marks)
    (x : IndexedReport) :
    (s.addNamedIndexed names m x).map (·.report) = s.addNamed names m x.report := by
  induction names generalizing m x with
  | nil => rfl
  | cons name rest ih =>
    rw [addNamedIndexed, addNamed]
    cases s.view.named? name with
    | none => exact (ih m _).trans (by rw [IndexedReport.report_add])
    | some g =>
      refine (Noted.map_bind _ _ _).trans (bind_congr fun decided => ?_)
      exact (ih decided.2 _).trans (by rw [IndexedReport.report_add])

namespace View

variable (v : View) (r : Request) (o : Options)

theorem map_report_computedIndexed :
    (v.computedIndexed r o).map (·.report) = v.computed r o := by
  rw [computedIndexed, computed]
  generalize v.decideAll r o = decided
  exact congrArg (Noted.mk · decided.notices)
    (IndexedReport.report_foldl_add decided.answer (·.1.name) (·.2) .empty)

theorem map_report_reportIndexed : (v.reportIndexed r o).map (·.report) = v.report r o := by
  rw [reportIndexed, report, IndexedReport.map_report_bind_amend, map_report_computedIndexed]

theorem map_report_reportOnIndexed (names : List String) :
    (v.reportOnIndexed names r o).map (·.report) = v.reportOn names r o := by
  rw [reportOnIndexed, reportOn, Noted.map_bind]
  refine bind_congr fun s => ?_
  rw [IndexedReport.map_report_bind_amend, s.map_report_addNamedIndexed]
  rfl

theorem report_reportIndexed : (v.reportIndexed r o).answer.report = (v.report r o).answer :=
  congrArg Noted.answer (v.map_report_reportIndexed r o)

theorem report_reportOnIndexed (names : List String) :
    (v.reportOnIndexed names r o).answer.report = (v.reportOn names r o).answer :=
  congrArg Noted.answer (v.map_report_reportOnIndexed r o names)

end View

theorem Evaluator.map_report_reportWithFlightsIndexed (e : Evaluator)
    {listed : Flights → List (String × String)}
    (hlisted : ∀ flights, (listed flights).Perm flights.entries) (r : Request)
    (cancelled : Option Nat) :
    (e.reportWithFlightsIndexed listed r cancelled).map (·.report) =
      e.reportWithFlights r cancelled := by
  rw [reportWithFlightsIndexed, reportWithFlights, Noted.map_bind]
  refine bind_congr fun flights => ?_
  rw [Noted.map_bind, ← View.map_report_computedIndexed, Noted.bind_map]
  refine bind_congr fun x => ?_
  rw [IndexedReport.map_report_bind_amend, x.map_report_addListed _ (hlisted flights)]

/-! ## What the index holds -/

namespace IndexedReport

theorem Keyed.foldl_add {α : Type} {x : IndexedReport} (hx : x.Keyed) (l : List α)
    (name : α → String) (decision : α → Decision) :
    (l.foldl (fun (x : IndexedReport) a => x.add (name a) (decision a)) x).Keyed := by
  induction l generalizing x with
  | nil => exact hx
  | cons a rest ih => exact ih (hx.add (name a) (decision a))

theorem index_foldlM_addFlight (policy : CollisionPolicy) (flights : List (String × String))
    (x : IndexedReport) :
    (flights.foldlM (fun (x : IndexedReport) e => x.addFlight policy e.1 e.2) x).answer.index =
      x.index := by
  induction flights generalizing x with
  | nil => rfl
  | cons e rest ih => rw [List.foldlM_cons, Noted.answer_bind, ih, index_addFlight]

theorem Keyed.addListed {x : IndexedReport} (hx : x.Keyed) (policy : CollisionPolicy)
    (listed : List (String × String)) : (x.addListed policy listed).answer.Keyed := by
  rw [Keyed, IndexedReport.addListed, index_foldlM_addFlight]
  exact hx

end IndexedReport

theorem Scope.keyed_addNamedIndexed (s : Scope) (names : List String) (m : Marks)
    {x : IndexedReport} (hx : x.Keyed) : (s.addNamedIndexed names m x).answer.Keyed := by
  induction names generalizing m x with
  | nil => exact hx
  | cons name rest ih =>
    rw [addNamedIndexed]
    cases s.view.named? name with
    | none => exact ih m (hx.add name _)
    | some g => exact ih (s.decide g m).answer.2 (hx.add g.name _)

theorem View.keyed_computedIndexed (v : View) (r : Request) (o : Options) :
    (v.computedIndexed r o).answer.Keyed := by
  rw [computedIndexed]
  generalize v.decideAll r o = decided
  exact IndexedReport.Keyed.empty.foldl_add decided.answer (·.1.name) (·.2)

namespace IndexedReport

/-- A report of some evaluation with its index, in which flights may have been brought any number
of times. -/
inductive Reached : IndexedReport → Prop
  | report (v : View) (r : Request) (o : Options) : Reached (v.reportIndexed r o).answer
  | reportOn (v : View) (names : List String) (r : Request) (o : Options) :
    Reached (v.reportOnIndexed names r o).answer
  | reportWithFlights (e : Evaluator) {listed : Flights → List (String × String)}
    (hlisted : ∀ flights, (listed flights).Perm flights.entries) (r : Request)
    (cancelled : Option Nat) : Reached (e.reportWithFlightsIndexed listed r cancelled).answer
  | addListed {x : IndexedReport} (h : Reached x) (policy : CollisionPolicy) {flights : Flights}
    {listed : List (String × String)} (hlisted : listed.Perm flights.entries) :
    Reached (x.addListed policy listed).answer

theorem Reached.keyed {x : IndexedReport} (hx : x.Reached) : x.Keyed := by
  induction hx with
  | report v r o => exact (v.keyed_computedIndexed r o).amend v r.overrides
  | reportOn v names r o =>
    have hasked := (v.scope r o).answer.keyed_addNamedIndexed names [] Keyed.empty
    exact hasked.amend v r.overrides
  | reportWithFlights e _ r cancelled =>
    have hcomputed := e.view.keyed_computedIndexed r e.options
    exact (hcomputed.addListed _ _).amend e.view r.overrides
  | addListed _ policy _ ih => exact ih.addListed policy _

end IndexedReport
end FeatureGates
