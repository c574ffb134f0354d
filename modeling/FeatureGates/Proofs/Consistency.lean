import FeatureGates.Proofs.Flights
import FeatureGates.Proofs.IndexedRuns

/-!
Reports that stay consistent.

A report keeps gates and flights apart, and both are changed at several places: gates are added,
flights are brought in, and overrides are laid over both.  Through all of it there is one entry for
a gate at most, and a flight that has the name of a gate stands beside a gate that is on.  So the
questions that a report is asked have answers that fit together.
-/

namespace FeatureGates

/-- Whether a gate is on under overrides depends on nothing but whether it is on. -/
theorem Overrides.active_apply_congr (o : Overrides) (gate : String) {d d' : Decision}
    (h : d.active = d'.active) : (o.apply gate d).active = (o.apply gate d').active := by
  simp only [apply, h]
  split
  · rfl
  · split
    · rfl
    · split
      · rfl
      · exact h

namespace Report

/-- No gate has two entries, and the flights that have the name of a gate go with a gate that is
on. -/
structure Consistent (r : Report) : Prop where
  single : r.Single
  flights_on : ∀ f ∈ r.flights.names, ∀ e ∈ r.entriesUnder f, e.2.active = true

namespace Consistent

variable {r : Report}

/-- Additions leave a report without flights consistent. -/
theorem addAll (l : List (String × Decision)) : Consistent (empty.addAll l) where
  single name := by
    rw [entriesUnder_addAll_empty]
    cases l.find? _ <;> simp
  flights_on f hf := by
    rw [flights_addAll] at hf
    cases hf

theorem amend (hr : r.Consistent) (v : View) (o : Overrides) :
    (r.amend v o).answer.Consistent where
  single name := by
    rw [entriesUnder_amend, List.length_map]
    exact hr.single name
  flights_on f hf e he := by
    rw [flights_amend] at hf
    obtain ⟨flight, hflight, rfl⟩ := List.mem_map.mp hf
    obtain ⟨hold, hkept⟩ := List.mem_filter.mp hflight
    rw [entriesUnder_amend] at he
    obtain ⟨entry, hentry, rfl⟩ := List.mem_map.mp he
    have hon := hr.flights_on flight.1 (List.mem_map_of_mem hold) entry hentry
    -- The overrides that leave the flight on leave any gate of its name on.
    show (o.amend flight.1 entry.2).active = true
    rw [Overrides.amend]
    split
    · exact hon
    · have hsame : (o.apply flight.1 entry.2).active = (o.apply flight.1 .flight).active :=
        o.active_apply_congr flight.1 hon
      exact hsame.trans hkept

theorem addFlight (hr : r.Consistent) (policy : CollisionPolicy) (flight value : String) :
    (r.addFlight policy flight value).answer.Consistent := by
  rw [(addFlight_spec hr.single policy flight value).1]
  refine ⟨hr.single.map _ _, fun f hf e he => ?_⟩
  rw [entriesUnder_map] at he
  obtain ⟨entry, hentry, rfl⟩ := List.mem_map.mp he
  have hold : f ∈ r.flights.names → (joined policy [flight] entry.1 entry.2).active = true := by
    intro hf
    unfold joined
    split
    · rfl
    · exact hr.flights_on f hf entry hentry
  by_cases hadmits : r.admits policy flight = true
  · rw [if_pos hadmits] at hf
    rcases Directory.mem_names_insert.mp hf with rfl | hf
    · -- A flight that has the name of a gate was only admitted because flights win.
      have hgate : (r.entry? f).isNone = false := by
        rw [entry?_eq_head?, Option.isNone_eq_false_iff, List.isSome_head?]
        exact List.ne_nil_of_mem hentry
      have hwins : policy = .lastWriterWins := by simpa [admits, hgate] using hadmits
      have hnamed : ∃ f' ∈ [f], Text.fold f' = Text.fold entry.1 :=
        ⟨f, List.mem_singleton_self f, (mem_entriesUnder.mp hentry).2.symm⟩
      show (joined policy [f] entry.1 entry.2).active = true
      rw [joined, if_pos ⟨hwins, hnamed⟩]
      rfl
    · exact hold hf
  · rw [if_neg hadmits] at hf
    exact hold hf

theorem foldlM_addFlight (hr : r.Consistent) (policy : CollisionPolicy)
    (flights : List (String × String)) :
    (flights.foldlM (fun (r : Report) entry => r.addFlight policy entry.1 entry.2)
      r).answer.Consistent := by
  induction flights generalizing r with
  | nil => exact hr
  | cons entry rest ih =>
    rw [List.foldlM_cons, Noted.answer_bind]
    exact ih (addFlight hr policy entry.1 entry.2)

theorem addFlights (hr : r.Consistent) (policy : CollisionPolicy) (flights : Flights) :
    (r.addFlights policy flights).answer.Consistent :=
  hr.foldlM_addFlight policy flights.entries

end Consistent

/-! ## What a consistent report answers -/

section

variable {r : Report}

theorem Single.nodup_names (hr : r.Single) : (r.gates.names.map Text.fold).Nodup := by
  refine List.nodup_iff_count_le_one.mpr fun key => ?_
  by_cases hkey : key ∈ r.gates.names.map Text.fold
  · obtain ⟨name, -, rfl⟩ := List.mem_map.mp hkey
    have hcount : (r.gates.names.map Text.fold).count (Text.fold name) =
        (r.entriesUnder name).length := by
      rw [entriesUnder, Directory.names, List.map_map, List.count, List.countP_map,
        List.countP_eq_length_filter]
      rfl
    exact hcount ▸ hr name
  · rw [List.count_eq_zero_of_not_mem hkey]
    exact Nat.zero_le 1

theorem Single.get?_eq_some_iff (hr : r.Single) {name : String} {d : Decision} :
    r.get? name = some d ↔ ∃ key, (key, d) ∈ r.entriesUnder name := by
  rw [get?_eq_head?, Option.map_eq_some_iff]
  constructor
  · intro h
    obtain ⟨e, he, rfl⟩ := h
    exact ⟨e.1, List.mem_of_mem_head? he⟩
  · intro h
    obtain ⟨key, hkey⟩ := h
    cases hhead : (r.entriesUnder name).head? with
    | none =>
      rw [List.head?_eq_none_iff.mp hhead] at hkey
      cases hkey
    | some e =>
      have hsame := hr.eq_of_mem (List.mem_of_mem_head? hhead) hkey
      exact ⟨e, rfl, congrArg Prod.snd hsame⟩

theorem mem_active_iff {name : String} :
    name ∈ r.active ↔ (∃ d, (name, d) ∈ r.gates.entries ∧ d.active = true) ∨
      name ∈ r.flights.names := by
  simp [active, Directory.names, Directory.filter]

theorem isSome_flight?_iff {name : String} :
    (r.flight? name).isSome = true ↔ ∃ f ∈ r.flights.names, Text.fold f = Text.fold name := by
  simp [flight?, Directory.names]

/-- A name is on just when some spelling of it is among those that are on. -/
theorem Consistent.isActive_iff (hr : r.Consistent) (name : String) :
    r.isActive name = true ↔ ∃ on ∈ r.active, Text.fold on = Text.fold name := by
  simp only [mem_active_iff]
  rw [isActive]
  cases hget : r.get? name with
  | some d =>
    obtain ⟨key, hkey⟩ := hr.single.get?_eq_some_iff.mp hget
    obtain ⟨hmem, hfold⟩ := mem_entriesUnder.mp hkey
    constructor
    · intro hon
      exact ⟨key, Or.inl ⟨d, hmem, hon⟩, hfold⟩
    · intro h
      obtain ⟨on, ⟨d', hmem', hon⟩ | hflight, hfold'⟩ := h
      · have hsame := hr.single.eq_of_mem hkey (mem_entriesUnder.mpr ⟨hmem', hfold'⟩)
        obtain ⟨-, rfl⟩ := Prod.mk.inj hsame
        exact hon
      · -- The name is that of a flight as well as of a gate.
        refine hr.flights_on on hflight (key, d) ?_
        rw [entriesUnder_congr hfold']
        exact hkey
  | none =>
    have hnone : ∀ e, e ∉ r.entriesUnder name := by
      rw [get?_eq_head?, Option.map_eq_none_iff, List.head?_eq_none_iff] at hget
      simp [hget]
    rw [isSome_flight?_iff]
    constructor
    · intro h
      obtain ⟨f, hf, hfold⟩ := h
      exact ⟨f, Or.inr hf, hfold⟩
    · intro h
      obtain ⟨on, ⟨d, hmem, -⟩ | hflight, hfold⟩ := h
      · exact absurd (mem_entriesUnder.mpr ⟨hmem, hfold⟩) (hnone (on, d))
      · exact ⟨on, hflight, hfold⟩

end

/-! ## Reports as they come about -/

/-- A report of some evaluation, in which flights may have been brought any number of times. -/
inductive Reached : Report → Prop
  | report (v : View) (r : Request) (o : Options) : Reached (v.report r o).answer
  | reportOn (v : View) (names : List String) (r : Request) (o : Options) :
    Reached (v.reportOn names r o).answer
  | reportWithFlights (e : Evaluator) (r : Request) (cancelled : Option Nat) :
    Reached (e.reportWithFlights r cancelled).answer
  | addFlights {report : Report} (h : Reached report) (policy : CollisionPolicy)
    (flights : Flights) : Reached (report.addFlights policy flights).answer

end Report

theorem View.consistent_computed (v : View) (r : Request) (o : Options) :
    (v.computed r o).answer.Consistent := by
  have hall : (v.computed r o).answer =
      Report.empty.addAll ((v.decideAll r o).answer.map fun entry => (entry.1.name, entry.2)) := by
    rw [Report.addAll, List.foldl_map]
    rfl
  rw [hall]
  exact .addAll _

theorem Scope.exists_addAll_addNamed (s : Scope) (names : List String) (m : Marks)
    (report : Report) : ∃ l, (s.addNamed names m report).answer = report.addAll l := by
  induction names generalizing m report with
  | nil => exact ⟨[], rfl⟩
  | cons name rest ih =>
    rw [addNamed]
    cases s.view.named? name with
    | none =>
      obtain ⟨l, hl⟩ := ih m (report.add name (Decision.error .gateNotFound))
      exact ⟨(name, Decision.error .gateNotFound) :: l, hl⟩
    | some g =>
      obtain ⟨l, hl⟩ := ih (s.decide g m).answer.2 (report.add g.name (s.decide g m).answer.1)
      exact ⟨(g.name, (s.decide g m).answer.1) :: l, hl⟩

namespace Report

theorem Reached.consistent {r : Report} (hr : r.Reached) : r.Consistent := by
  induction hr with
  | report v r o => exact (v.consistent_computed r o).amend v r.overrides
  | reportOn v names r o =>
    obtain ⟨l, hl⟩ := (v.scope r o).answer.exists_addAll_addNamed names [] .empty
    have hasked : ((v.scope r o).answer.addNamed names [] .empty).answer.Consistent :=
      hl ▸ Consistent.addAll l
    exact hasked.amend v r.overrides
  | reportWithFlights e r cancelled =>
    rw [(e.reportWithFlights_spec r cancelled).1]
    have hcomputed := e.store.snapshot.view.consistent_computed r e.options
    exact (hcomputed.addFlights _ _).amend _ _
  | addFlights _ policy flights ih => exact ih.addFlights policy flights

/-- Every run can be done with an index as well. -/
theorem Reached.exists_indexed {r : Report} (hr : r.Reached) :
    ∃ x : IndexedReport, x.Reached ∧ x.report = r := by
  induction hr with
  | report v r o => exact ⟨_, .report v r o, v.report_reportIndexed r o⟩
  | reportOn v names r o => exact ⟨_, .reportOn v names r o, v.report_reportOnIndexed r o names⟩
  | reportWithFlights e r cancelled =>
    have hlisted : ∀ flights : Flights, flights.entries.Perm flights.entries := fun _ => .refl _
    exact ⟨_, .reportWithFlights e hlisted r cancelled,
      congrArg Noted.answer (e.map_report_reportWithFlightsIndexed hlisted r cancelled)⟩
  | addFlights _ policy flights ih =>
    obtain ⟨x, hx, rfl⟩ := ih
    exact ⟨_, hx.addListed policy (.refl flights.entries),
      congrArg Noted.answer (x.map_report_addListed policy (.refl flights.entries))⟩

/-- With one entry for a gate at most, the index leads to each name that the report has. -/
theorem Consistent.find?_index_iff {x : IndexedReport} (hr : x.report.Consistent) (hx : x.Keyed)
    {key gate : String} :
    x.index.find? key = some gate ↔ gate ∈ x.report.gates.names ∧ Text.fold gate = key := by
  constructor
  · intro hfound
    obtain rfl := hx key gate hfound
    obtain ⟨e, he, rfl⟩ := exists_mem_of_gateOf? ((x.fits gate).symm.trans hfound)
    exact ⟨List.mem_map_of_mem he, rfl⟩
  · rintro ⟨hgate, rfl⟩
    obtain ⟨first, hfirst⟩ : ∃ first, x.report.entry? gate = some first :=
      Option.isSome_iff_exists.mp ((isSome_entry?_iff _ _).mpr ⟨gate, hgate, rfl⟩)
    obtain ⟨e, he, rfl⟩ := List.mem_map.mp hgate
    rw [x.fits, gateOf?, hfirst]
    exact congrArg some ((hr.single.name_eq_iff hfirst he).mpr rfl).symm

/-- The answers of a report fit together.  No two entries have one name in two spellings; a name
leads to the decision of the entry that has it, and to none without such an entry; a flight that
has the name of a gate stands beside a gate that is on; and what is said to be on is what is listed
as being on.  The report can be made with an index, and whenever it is, the index leads from the
folded name of every gate to the name, has no other entries, and finds the same decisions. -/
theorem answers_fit {r : Report} (hr : r.Reached) :
    (r.gates.names.map Text.fold).Nodup ∧
    (∀ name d, r.get? name = some d ↔ ∃ key, (key, d) ∈ r.gates.entries ∧
      Text.fold key = Text.fold name ∧
      ∀ other ∈ r.gates.names, Text.fold other = Text.fold name → other = key) ∧
    (∀ f ∈ r.flights.names, ∀ e ∈ r.gates.entries, Text.fold e.1 = Text.fold f →
      e.2.active = true) ∧
    (∀ name, r.isActive name = true ↔ ∃ on ∈ r.active, Text.fold on = Text.fold name) ∧
    (∃ x : IndexedReport, x.Reached ∧ x.report = r) ∧
    ∀ x : IndexedReport, x.Reached → x.report = r →
      (∀ name, x.get? name = r.get? name) ∧
      ∀ key gate, x.index.find? key = some gate ↔
        gate ∈ r.gates.names ∧ Text.fold gate = key := by
  have hc := hr.consistent
  refine ⟨hc.single.nodup_names, fun name d => ?_,
    fun f hf e he hfold => hc.flights_on f hf e (mem_entriesUnder.mpr ⟨he, hfold⟩),
    hc.isActive_iff, hr.exists_indexed, ?_⟩
  · rw [hc.single.get?_eq_some_iff]
    refine exists_congr fun key => mem_entriesUnder.trans (and_congr_right fun hmem => ?_)
    refine (and_iff_left_of_imp fun hfold other hother hsame => ?_).symm
    obtain ⟨e, he, rfl⟩ := List.mem_map.mp hother
    exact congrArg Prod.fst (hc.single.eq_of_mem (mem_entriesUnder.mpr ⟨he, hsame⟩)
      (mem_entriesUnder.mpr ⟨hmem, hfold⟩))
  · rintro x hx rfl
    exact ⟨x.get?_eq, fun key gate => hc.find?_index_iff hx.keyed⟩

def fixture : Document where
  gates := [("Search", { filters := [.condition (.campaign ["spring"] [])] }), ("cart", {})]

theorem answers_fit_fixture :
    let h : Hierarchy := { gates := fixture.toGates }
    let service : FlightService := ⟨some 3, fun _ => .ok (Directory.ofList [("CART", "7")])⟩
    let e : Evaluator := { store := ⟨.memory "", h⟩, flightService := service,
                           settings := { collisionPolicy := .lastWriterWins } }
    let joined := (e.reportWithFlights { overrides := { disabled := ["cart"] } } none).answer
    let rejecting :=
      (joined.addFlights .reject (Directory.ofList [("cart", "8"), ("Δ", "9")])).answer
    let r := (rejecting.addFlights .lastWriterWins (Directory.ofList [("search", "1")])).answer
    r.Reached ∧ r.gates.entries = [("Search", .flight), ("cart", .overridden false .disabled)] ∧
      r.flights.names = ["search", "Δ"] ∧ r.active = ["Search", "search", "Δ"] ∧
      r.get? "SEARCH" = some .flight ∧ r.isActive "δ" = true ∧ r.isActive "Cart" = false ∧
      ∃ x : IndexedReport, x.Reached ∧ x.report = r ∧ x.get? "SEARCH" = some .flight ∧
        x.index.find? "search" = some "Search" ∧ x.index.find? "Search" = none := by
  intro h service e joined rejecting r
  have hr : r.Reached := ((Reached.reportWithFlights e _ none).addFlights _ _).addFlights _ _
  obtain ⟨-, hget, -, hon, ⟨x, hx, hxr⟩, hfinds⟩ := answers_fit hr
  have hgates : r.gates.entries = [("Search", .flight), ("cart", .overridden false .disabled)] := by
    decide +kernel
  have hnames : r.gates.names = ["Search", "cart"] := by
    rw [Directory.names, hgates]
    rfl
  have hactive : r.active = ["Search", "search", "Δ"] := by decide +kernel
  have hcart : ¬∃ on ∈ r.active, Text.fold on = Text.fold "Cart" := by
    rw [hactive]
    decide +kernel
  have hsearch : r.get? "SEARCH" = some .flight := by
    refine (hget "SEARCH" _).mpr ⟨"Search", ?_⟩
    rw [hnames, hgates]
    decide +kernel
  obtain ⟨hsame, hindex⟩ := hfinds x hx hxr
  refine ⟨hr, hgates, by decide +kernel, hactive, hsearch, (hon "δ").mpr ⟨"Δ", ?_⟩, ?_,
    x, hx, hxr, (hsame "SEARCH").trans hsearch, (hindex "search" "Search").mpr ⟨?_, ?_⟩, ?_⟩
  · rw [hactive]
    decide +kernel
  · rw [Bool.eq_false_iff, ne_eq, hon]
    exact hcart
  · rw [hnames]
    exact List.mem_cons_self
  · decide +kernel
  · -- The spelling of a gate is no key, unless it is folded.
    refine Option.eq_none_iff_forall_ne_some.mpr fun gate hfound => ?_
    obtain ⟨hgate, hfold⟩ := (hindex "Search" gate).mp hfound
    rw [hnames] at hgate
    rcases List.mem_pair.mp hgate with rfl | rfl
    · exact absurd hfold (by decide +kernel)
    · exact absurd hfold (by decide +kernel)

end Report
end FeatureGates
