import FeatureGates.Proofs.Directories
import FeatureGates.Proofs.Reports

/-!
The index of a report.

A report may be kept together with an index that leads from the folded name of a gate to the name
as it is spelled in the report, so that the entry under a name is found without a search.  An entry
of the index is made when the first decision on a gate is added, and never changed after that: what
the index says is what a search would find, whatever becomes of the decisions.
-/

namespace FeatureGates
namespace Report

theorem entriesUnder_map (r : Report) (f : String → Decision → Decision) (flights : Flights)
    (name : String) : entriesUnder ⟨r.gates.map f, flights⟩ name =
      (r.entriesUnder name).map fun e => (e.1, f e.1 e.2) :=
  List.filter_map

theorem entry?_map (r : Report) (f : String → Decision → Decision) (flights : Flights)
    (name : String) : entry? ⟨r.gates.map f, flights⟩ name =
      (r.entry? name).map fun e => (e.1, f e.1 e.2) := by
  rw [entry?_eq_head?, entry?_eq_head?, entriesUnder_map, List.head?_map]

/-- The gate, as it is spelled in the report, that a name finds. -/
def gateOf? (r : Report) (name : String) : Option String := (r.entry? name).map (·.1)

theorem gateOf?_map (r : Report) (f : String → Decision → Decision) (flights : Flights)
    (name : String) : gateOf? ⟨r.gates.map f, flights⟩ name = r.gateOf? name := by
  rw [gateOf?, gateOf?, entry?_map, Option.map_map]
  rfl

theorem isSome_entry?_iff (r : Report) (name : String) :
    (r.entry? name).isSome = true ↔ ∃ gate ∈ r.gates.names, Text.fold gate = Text.fold name := by
  unfold entry?
  simp [Directory.names]

theorem gateOf?_eq_none_iff {r : Report} {name : String} :
    r.gateOf? name = none ↔ r.entry? name = none :=
  Option.map_eq_none_iff

theorem exists_mem_of_gateOf? {r : Report} {name gate : String} (h : r.gateOf? name = some gate) :
    ∃ e ∈ r.gates.entries, e.1 = gate := by
  obtain ⟨e, he, rfl⟩ := Option.map_eq_some_iff.mp h
  exact ⟨e, List.mem_of_find?_eq_some he, rfl⟩

theorem gateOf?_add (r : Report) (name other : String) (d : Decision) :
    (r.add name d).gateOf? other =
      if Text.fold name = Text.fold other ∧ r.gateOf? other = none then some name
      else r.gateOf? other := by
  have hnone : r.gateOf? other = none ↔ r.entriesUnder other = [] := by
    rw [gateOf?_eq_none_iff, entry?_eq_head?, List.head?_eq_none_iff]
  rw [gateOf?, entry?_eq_head?, entriesUnder_add]
  simp only [hnone]
  split
  · rfl
  · rw [gateOf?, entry?_eq_head?]

end Report

/-- A report with its index. -/
structure IndexedReport where
  report : Report
  index : Directory String
  fits : ∀ name, index.find? (Text.fold name) = report.gateOf? name

namespace IndexedReport

def empty : IndexedReport := ⟨.empty, .empty, fun _ => rfl⟩

/-- The index of entries, where the first one of a name counts. -/
def indexOf : List (String × Decision) → Directory String
  | [] => .empty
  | e :: rest => (indexOf rest).insert (Text.fold e.1) e.1

theorem find?_indexOf (l : List (String × Decision)) (key : String) :
    (indexOf l).find? key = (l.find? (Text.fold ·.1 = key)).map (·.1) := by
  induction l with
  | nil => rfl
  | cons e rest ih =>
    rw [indexOf, Directory.find?_insert, ih, List.find?_cons]
    by_cases hkey : Text.fold e.1 = key
    · simp only [hkey, if_true, decide_true, Option.map_some]
    · simp only [hkey, if_false, decide_false]

/-- Every report has an index. -/
def of (r : Report) : IndexedReport := ⟨r, indexOf r.gates.entries, fun _ => find?_indexOf _ _⟩

/-- The decision on a gate, found by the spelling that the index gives. -/
def get? (x : IndexedReport) (name : String) : Option Decision :=
  (x.index.find? (Text.fold name)).bind x.report.gates.find?

theorem get?_eq (x : IndexedReport) (name : String) : x.get? name = x.report.get? name := by
  rw [get?, x.fits, Report.gateOf?, Report.get?]
  cases he : x.report.entry? name with
  | none => rfl
  | some e => exact Directory.find?_eq_some_iff.mpr (List.mem_of_find?_eq_some he)

theorem add_eq_of_missing (x : IndexedReport) {name : String}
    (h : x.index.find? (Text.fold name) = none) (d : Decision) :
    x.report.add name d = { x.report with gates := x.report.gates.insert name d } := by
  rw [x.fits, Report.gateOf?_eq_none_iff] at h
  rw [Report.add, h]

/-- Adds the decision on a gate and its name, unless the index has the name already. -/
def add (x : IndexedReport) (name : String) (d : Decision) : IndexedReport :=
  match h : x.index.find? (Text.fold name) with
  | some _ => x
  | none =>
    { report := { x.report with gates := x.report.gates.insert name d }
      index := x.index.insert (Text.fold name) name
      fits := by
        intro other
        rw [← x.add_eq_of_missing h d, Directory.find?_insert, Report.gateOf?_add, ← x.fits]
        by_cases hfold : Text.fold name = Text.fold other
        · rw [if_pos hfold, if_pos ⟨hfold, hfold ▸ h⟩]
        · rw [if_neg hfold, if_neg fun hand => hfold hand.1] }

theorem report_add (x : IndexedReport) (name : String) (d : Decision) :
    (x.add name d).report = x.report.add name d := by
  rw [add]
  split
  · rename_i gate h
    rw [x.fits, Report.gateOf?, Option.map_eq_some_iff] at h
    obtain ⟨e, he, -⟩ := h
    rw [Report.add, he]
  · rename_i h
    exact (x.add_eq_of_missing h d).symm

theorem insert_eq_map (x : IndexedReport) {name gate : String}
    (h : x.index.find? (Text.fold name) = some gate) (d : Decision) :
    x.report.gates.insert gate d =
      x.report.gates.map fun other e => if other = gate then d else e :=
  Directory.insert_of_mem d (Report.exists_mem_of_gateOf? ((x.fits name).symm.trans h))

/-- Brings in one flight.  The index tells whether it has the name of a gate. -/
def addFlight (policy : CollisionPolicy) (x : IndexedReport) (flight value : String) :
    Noted IndexedReport :=
  match h : x.index.find? (Text.fold flight) with
  | none =>
    pure { x with report := { x.report with flights := x.report.flights.insert flight value } }
  | some gate =>
    match policy with
    | .reject => do
      note (.flightCollision flight false)
      return x
    | .lastWriterWins => do
      note (.flightCollision flight true)
      return { x with
        report := ⟨x.report.gates.insert gate .flight, x.report.flights.insert flight value⟩
        fits := fun other => by
          rw [x.insert_eq_map h, Report.gateOf?_map]
          exact x.fits other }

theorem map_report_addFlight (policy : CollisionPolicy) (x : IndexedReport)
    (flight value : String) :
    (x.addFlight policy flight value).map (·.report) =
      x.report.addFlight policy flight value := by
  rw [addFlight, Report.addFlight]
  split
  · rename_i h
    rw [x.fits, Report.gateOf?_eq_none_iff] at h
    rw [h]
    rfl
  · rename_i gate h
    rw [x.fits, Report.gateOf?, Option.map_eq_some_iff] at h
    obtain ⟨e, he, rfl⟩ := h
    rw [he]
    cases policy <;> rfl

theorem index_addFlight (policy : CollisionPolicy) (x : IndexedReport) (flight value : String) :
    (x.addFlight policy flight value).answer.index = x.index := by
  rw [addFlight]
  split
  · rfl
  · cases policy <;> rfl

/-- Lays overrides over the decisions and the flights.  The index is left as it is. -/
def amend (v : View) (o : Overrides) (x : IndexedReport) : Noted IndexedReport :=
  if o.isEmpty then pure x
  else
    { answer := { x with
        report := ⟨x.report.gates.map o.amend,
          x.report.flights.filter fun flight _ => Report.keepsFlight o flight⟩
        fits := fun name => by
          rw [Report.gateOf?_map]
          exact x.fits name }
      notices := Report.overrideNotices v o x.report }

theorem map_report_amend (v : View) (o : Overrides) (x : IndexedReport) :
    (x.amend v o).map (·.report) = x.report.amend v o := by
  rw [amend, Report.amend]
  split <;> rfl

theorem index_amend (v : View) (o : Overrides) (x : IndexedReport) :
    (x.amend v o).answer.index = x.index := by
  rw [amend]
  split <;> rfl

/-- The index has no entries but those that lead to a name from its folded form. -/
def Keyed (x : IndexedReport) : Prop :=
  ∀ key gate, x.index.find? key = some gate → Text.fold gate = key

theorem Keyed.empty : empty.Keyed := nofun

theorem Keyed.add {x : IndexedReport} (hx : x.Keyed) (name : String) (d : Decision) :
    (x.add name d).Keyed := by
  intro key gate hfound
  rw [IndexedReport.add] at hfound
  split at hfound
  · exact hx key gate hfound
  · rw [Directory.find?_insert] at hfound
    split at hfound
    · rename_i hkey
      obtain rfl := Option.some.inj hfound
      exact hkey
    · exact hx key gate hfound

theorem Keyed.amend {x : IndexedReport} (hx : x.Keyed) (v : View) (o : Overrides) :
    (x.amend v o).answer.Keyed := by
  rw [Keyed, index_amend]
  exact hx

end IndexedReport
end FeatureGates
