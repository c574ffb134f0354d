import FeatureGates.Report
import FeatureGates.Proofs.Folding

/-!
The entries of a report under a name, in all spellings.  Additions keep them to one at most, since
only the first addition under a name has an effect, and overrides keep their names.
-/

namespace FeatureGates

namespace Directory

variable {α : Type} {name : String} {value : α} {p : String × α → Bool}

/-- A new entry that `p` rejects cannot be told by `p`, unless it replaced another. -/
theorem filter_place_of_neg (hp : p (name, value) = false) {l : List (String × α)}
    (hnew : ∀ entry ∈ l, entry.1 = name → p entry = false) :
    (place name value l).filter p = l.filter p := by
  induction l with
  | nil => simp [place, hp]
  | cons first rest ih =>
    have hrest := ih fun entry hentry => hnew entry (List.mem_cons_of_mem first hentry)
    simp only [place]
    split
    · rw [List.filter_cons_of_neg (by simp [hp])]
    · split
      · rw [List.filter_cons, List.filter_cons, hrest]
      · rename_i hlt hgt
        have hfirst := hnew first List.mem_cons_self (eq_of_not_lt hlt hgt).symm
        rw [List.filter_cons_of_neg (by simp [hp]), List.filter_cons_of_neg (by simp [hfirst])]

theorem filter_place_of_pos (hp : p (name, value) = true) {l : List (String × α)}
    (hnew : ∀ entry ∈ l, p entry = false) :
    (place name value l).filter p = [(name, value)] := by
  induction l with
  | nil => simp [place, hp]
  | cons first rest ih =>
    have hfirst := hnew first List.mem_cons_self
    have hrest : ∀ entry ∈ rest, p entry = false :=
      fun entry hentry => hnew entry (List.mem_cons_of_mem first hentry)
    have hnone : rest.filter p = [] := by simpa using hrest
    simp only [place]
    split
    · rw [List.filter_cons_of_pos hp, List.filter_cons_of_neg (by simp [hfirst]), hnone]
    · split
      · rw [List.filter_cons_of_neg (by simp [hfirst]), ih hrest]
      · rw [List.filter_cons_of_pos hp, hnone]

end Directory

namespace Report

/-- The entries whose names are `name` in some spelling. -/
def entriesUnder (r : Report) (name : String) : List (String × Decision) :=
  r.gates.entries.filter fun entry => Text.fold entry.1 = Text.fold name

theorem mem_entriesUnder {r : Report} {name : String} {e : String × Decision} :
    e ∈ r.entriesUnder name ↔ e ∈ r.gates.entries ∧ Text.fold e.1 = Text.fold name := by
  rw [entriesUnder, List.mem_filter, decide_eq_true_eq]

theorem entry?_eq_head? (r : Report) (name : String) :
    r.entry? name = (r.entriesUnder name).head? :=
  List.head?_filter.symm

theorem get?_eq_head? (r : Report) (name : String) :
    r.get? name = (r.entriesUnder name).head?.map (·.2) := by
  rw [get?, entry?_eq_head?]

theorem entriesUnder_congr {a b : String} (hab : Text.fold a = Text.fold b) (r : Report) :
    r.entriesUnder a = r.entriesUnder b := by
  rw [entriesUnder, entriesUnder, hab]

@[simp] theorem entriesUnder_empty (name : String) : empty.entriesUnder name = [] := rfl

theorem entriesUnder_add (r : Report) (name other : String) (d : Decision) :
    (r.add name d).entriesUnder other =
      if Text.fold name = Text.fold other ∧ r.entriesUnder other = [] then [(name, d)]
      else r.entriesUnder other := by
  unfold add
  split
  · -- The name is taken in some spelling, so it is not new under any.
    rename_i entry hentry
    rw [if_neg]
    rintro ⟨hfold, hnone⟩
    rw [entry?_eq_head?, r.entriesUnder_congr hfold, hnone] at hentry
    cases hentry
  · rename_i hentry
    rw [entry?_eq_head?, List.head?_eq_none_iff] at hentry
    by_cases hfold : Text.fold name = Text.fold other
    · rw [r.entriesUnder_congr hfold] at hentry
      rw [if_pos ⟨hfold, hentry⟩]
      have hnew : ∀ entry ∈ r.gates.entries,
          decide (Text.fold entry.1 = Text.fold other) = false := by
        simpa [entriesUnder] using hentry
      exact Directory.filter_place_of_pos (by simpa using hfold) hnew
    · rw [if_neg fun hand => hfold hand.1]
      refine Directory.filter_place_of_neg (by simpa using hfold) fun entry _ hname => ?_
      simpa [hname] using hfold

/-- Additions one after another. -/
def addAll (r : Report) (l : List (String × Decision)) : Report :=
  l.foldl (fun r entry => r.add entry.1 entry.2) r

theorem entriesUnder_addAll (l : List (String × Decision)) (r : Report) (name : String) :
    (r.addAll l).entriesUnder name =
      if r.entriesUnder name = [] then
        (l.find? fun entry => Text.fold entry.1 = Text.fold name).toList
      else r.entriesUnder name := by
  induction l generalizing r with
  | nil =>
    show r.entriesUnder name = _
    split
    · assumption
    · rfl
  | cons entry rest ih =>
    show ((r.add entry.1 entry.2).addAll rest).entriesUnder name = _
    rw [ih, entriesUnder_add, List.find?_cons]
    by_cases hfold : Text.fold entry.1 = Text.fold name
    · by_cases hnone : r.entriesUnder name = [] <;> simp [hfold, hnone]
    · simp [hfold]

/-- Of additions under one name the first counts. -/
theorem entriesUnder_addAll_empty (l : List (String × Decision)) (name : String) :
    (empty.addAll l).entriesUnder name =
      (l.find? fun entry => Text.fold entry.1 = Text.fold name).toList := by
  rw [entriesUnder_addAll, if_pos (entriesUnder_empty name)]

theorem gates_amend (v : View) (o : Overrides) (r : Report) :
    (r.amend v o).answer.gates = r.gates.map o.amend := by
  unfold amend
  split
  · rename_i ho
    refine Directory.ext_entries ?_
    show r.gates.entries = r.gates.entries.map fun entry => (entry.1, o.amend entry.1 entry.2)
    simp only [Overrides.amend_of_isEmpty ho, List.map_id']
  · rfl

theorem entriesUnder_amend (v : View) (o : Overrides) (r : Report) (name : String) :
    (r.amend v o).answer.entriesUnder name =
      (r.entriesUnder name).map fun entry => (entry.1, o.amend name entry.2) := by
  rw [entriesUnder, gates_amend, Directory.map, List.filter_map]
  refine List.map_congr_left fun entry hentry => ?_
  have hfold : Text.fold entry.1 = Text.fold name := by simpa using (List.mem_filter.mp hentry).2
  rw [o.amend_congr hfold]

end Report
end FeatureGates
