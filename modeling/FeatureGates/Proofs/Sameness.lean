import FeatureGates.Proofs.AsciiNames
import FeatureGates.Proofs.FirstSpellings
import FeatureGates.Proofs.NameIndex
import FeatureGates.Proofs.NetworkTables
import FeatureGates.Proofs.Queue
import FeatureGates.Proofs.Validation

/-!
One sameness of names.

Names meet in many places: two are compared, a list is searched for one, and gates, networks,
decisions and flights are stored and looked up under theirs.  Some of these places compare texts and
others compare the folded forms that serve as keys.  `NameTests` says of a test on two names and a
test on a list of names that they decide in all these places, and it is shown of `Text.sameName` and
`Text.listsName`.
-/

namespace FeatureGates

open Text

/-- A lookup among values with names: the first value of the name is found, and something is found
just when the list of the names has it. -/
structure FindsFirst {α : Type} (same : String → String → Bool)
    (lists : List String → String → Bool) (entries : List (String × α))
    (found : String → Option α) : Prop where
  first : ∀ name, found name = (entries.find? fun entry => same entry.1 name).map (·.2)
  listed : ∀ name, (found name).isSome = lists (entries.map (·.1)) name

/-- Lookups go by keys.  Those that go by folded names go by the tests on names. -/
theorem FindsFirst.of_fold {α : Type} {entries : List (String × α)} {found : String → Option α}
    (h : ∀ name, found name = (entries.find? fun entry => fold entry.1 = fold name).map (·.2)) :
    FindsFirst sameName listsName entries found := by
  have hfirst : ∀ name, found name =
      (entries.find? fun entry => sameName entry.1 name).map (·.2) := by
    simp only [sameName_eq_decide]
    exact h
  refine ⟨hfirst, fun name => ?_⟩
  rw [hfirst, Option.isSome_map, List.isSome_find?, listsName, List.any_map]
  rfl

/-! ## Gates -/

theorem Hierarchy.findsFirst (h : Hierarchy) :
    FindsFirst sameName listsName (h.gates.map fun g => (g.name, g)) h.named? := by
  refine FindsFirst.of_fold fun name => ?_
  rw [h.named?_eq_find?, List.find?_map, Option.map_map]
  exact (congrFun Option.map_id _).symm

/-- The index that a loader fills as it goes finds what a search would find. -/
theorem Draft.findsFirst {d : Document} {s : Draft} (hs : (ofDocument d).answer = .ok s) :
    FindsFirst sameName listsName (s.gates.map fun g => (g.name, g)) s.named? := by
  obtain ⟨-, hfault, hok⟩ := ofDocument_agrees d
  cases hd : (Hierarchy.ofDocument d).answer with
  | error fault =>
    rw [hfault fault hd] at hs
    cases hs
  | ok h =>
    obtain ⟨s', hs', hgates, -, hnamed⟩ := hok h hd
    rw [hs] at hs'
    cases hs'
    rw [hgates, funext hnamed]
    exact h.findsFirst

theorem Hierarchy.nameFault?_eq_none_iff {container : Option String}
    {siblings : List (String × Definition)}
    (hvalid : ∀ entry ∈ siblings, isValidName entry.1 = true) :
    nameFault? container [] siblings = none ↔
      siblings.Pairwise fun a b => sameName a.1 b.1 = false := by
  obtain ⟨around, hpath⟩ : ∃ around, ∀ name,
      Placement.pathBelow container name = "/".intercalate (around ++ [name]) := by
    cases container with
    | none => exact ⟨[], fun name => by simp [Placement.pathBelow]⟩
    | some path => exact ⟨[path], fun name => by simp [Placement.pathBelow]⟩
  have hsame : ∀ a b, sameName a b = false ↔ fold a ≠ fold b := fun a b => by
    rw [← Bool.not_eq_true, sameName_iff]
  simp only [nameFault?_eq hpath, List.head?_eq_none_iff, nameFaults_eq_nil_iff, hsame]
  exact ⟨fun h => h.distinct,
    fun h => ⟨fun entry hentry => isValidName_iff.mp (hvalid entry hentry), h⟩⟩

/-! ## Networks -/

theorem NetworkTable.find?_ofEntries_eq (entries : List (String × List Network)) (name : String) :
    (ofEntries entries).find? name =
      if listsName (entries.map (·.1)) name then
        some ((entries.filter fun entry => sameName entry.1 name).flatMap (·.2))
      else none := by
  have hlisted : (∃ entry ∈ entries, fold entry.1 = fold name) ↔
      listsName (entries.map (·.1)) name = true := by
    simp [listsName_iff]
  rw [find?_ofEntries, if_congr hlisted rfl rfl, networksNamed]
  simp only [sameName_eq_decide]

/-! ## Decisions and flights -/

namespace Report

theorem findsFirst_get? (r : Report) : FindsFirst sameName listsName r.gates.entries r.get? :=
  FindsFirst.of_fold fun _ => rfl

theorem findsFirst_flight? (r : Report) :
    FindsFirst sameName listsName r.flights.entries r.flight? :=
  FindsFirst.of_fold fun _ => rfl

theorem isSome_entry?_eq (r : Report) (name : String) :
    (r.entry? name).isSome = listsName r.gates.names name := by
  rw [Bool.eq_iff_iff, isSome_entry?_iff, listsName_iff]

theorem add_eq (r : Report) (name : String) (d : Decision) :
    r.add name d = if listsName r.gates.names name then r
      else { r with gates := r.gates.insert name d } := by
  rw [← isSome_entry?_eq, add]
  cases r.entry? name <;> rfl

theorem notices_addFlight_eq (r : Report) (policy : CollisionPolicy) (flight value : String) :
    (r.addFlight policy flight value).notices =
      if listsName r.gates.names flight then
        [.flightCollision flight (decide (policy = .lastWriterWins))]
      else [] := by
  rw [← isSome_entry?_eq, addFlight]
  cases r.entry? flight with
  | none => rfl
  | some entry => cases policy <;> rfl

end Report

theorem IndexedReport.findsFirst (x : IndexedReport) :
    FindsFirst sameName listsName x.report.gates.entries x.get? := by
  rw [funext x.get?_eq]
  exact x.report.findsFirst_get?

/-! ## All tests -/

/-- A test on two names and a test on a list of names, and what they decide. -/
structure NameTests (same : String → String → Bool) (lists : List String → String → Bool) :
    Prop where
  /-- Names are the same when their lowercase texts are. -/
  folded : ∀ a b, same a b = true ↔ fold a = fold b
  equivalence : Equivalence fun a b => same a b = true
  /-- ASCII texts are compared letter by letter, to the same end. -/
  ascii : ∀ a b, isAscii a = true → isAscii b = true →
    same a b = sameAsciiLetters a.toList b.toList ∧
      (sameAsciiLetters a.toList b.toList = true ↔ lowercase a = lowercase b)
  /-- With one ASCII text it would be the same end, were it not for Kelvin signs. -/
  nearAscii : ∀ a b, isAscii a = true ∨ isAscii b = true →
    (same a b = true ↔
      sameAsciiLetters (a.toList.map plainKelvin) (b.toList.map plainKelvin) = true)
  listed : ∀ names name, lists names name = true ↔ fold name ∈ names.map fold
  /-- A list cleared of repetitions keeps a name if the names before it do not list it. -/
  cleared : ∀ names name, distinct (names ++ [name]) =
    if lists names name then distinct names else distinct names ++ [name]
  kept : ∀ names name, lists (distinct names) name = lists names name
  gates : ∀ h : Hierarchy, FindsFirst same lists (h.gates.map fun g => (g.name, g)) h.named?
  /-- It is the same where gates are entered in an index. -/
  indexedGates : ∀ d s, (Draft.ofDocument d).answer = .ok s →
    FindsFirst same lists (s.gates.map fun g => (g.name, g)) s.named?
  /-- Siblings are told apart. -/
  siblings : ∀ container siblings, (∀ entry ∈ siblings, Hierarchy.isValidName entry.1 = true) →
    (Hierarchy.nameFault? container [] siblings = none ↔
      siblings.Pairwise fun a b => same a.1 b.1 = false)
  networks : ∀ entries name, (NetworkTable.ofEntries entries).find? name =
    if lists (entries.map (·.1)) name then
      some ((entries.filter fun entry => same entry.1 name).flatMap (·.2))
    else none
  decisions : ∀ r : Report, FindsFirst same lists r.gates.entries r.get?
  indexedDecisions : ∀ x : IndexedReport, FindsFirst same lists x.report.gates.entries x.get?
  flights : ∀ r : Report, FindsFirst same lists r.flights.entries r.flight?
  /-- Of decisions under one name the first is kept. -/
  added : ∀ (r : Report) name d, r.add name d =
    if lists r.gates.names name then r else { r with gates := r.gates.insert name d }
  collisions : ∀ (r : Report) policy flight value, (r.addFlight policy flight value).notices =
    if lists r.gates.names flight then
      [.flightCollision flight (decide (policy = .lastWriterWins))]
    else []

/-- Two names are the same if their lowercase texts are, whichever way they are compared, and all
that is stored under names is found, kept apart and cleared of repetitions by this test. -/
theorem names_tested_alike : NameTests sameName listsName where
  folded := sameName_iff
  equivalence := sameName_equivalence
  ascii a b ha hb := by
    have hletters : sameName a b = sameAsciiLetters a.toList b.toList := by
      rw [sameName, ha, hb]
      rfl
    refine ⟨hletters, ?_⟩
    rw [← hletters]
    exact sameName_iff a b
  nearAscii _ _ h := sameName_iff_of_ascii_or h
  listed _ _ := listsName_iff_mem
  cleared := distinct_concat
  kept names := (sameNames_distinct names).listsName_eq
  gates := Hierarchy.findsFirst
  indexedGates _ _ hs := Draft.findsFirst hs
  siblings _ _ hvalid := Hierarchy.nameFault?_eq_none_iff hvalid
  networks := NetworkTable.find?_ofEntries_eq
  decisions := Report.findsFirst_get?
  indexedDecisions := IndexedReport.findsFirst
  flights := Report.findsFirst_flight?
  added := Report.add_eq
  collisions := Report.notices_addFlight_eq

/-- Letters beyond ASCII that come down to a letter in it, to two characters, or to forms that
depend on where they stand. -/
theorem names_tested_alike_rare :
    let cities := ["Prod", "STRAßE", "ΟΔΟΣ"]
    let siblings : List (String × Definition) := [("cart", {}), ("kart", {}), ("Cart", {})]
    let d : Document := { gates := [("kart", {})] }
    sameName "Kelvin" "kELVIN" = true ∧
      sameAsciiLetters "\u212AELVIN".toList "kelvin".toList = false ∧
      sameName "\u212AELVIN" "kelvin" = true ∧ sameName "kelvin" "\u212AELVIN" = true ∧
      sameName "İ" "i" = false ∧ sameName "İ" "i\u0307" = true ∧
      ["PROD", "straße", "οδος", "οδοσ", "Dev"].map (listsName cities) =
        [true, true, true, false, false] ∧
      distinct ["\u212A", "k"] = ["\u212A"] ∧
      Hierarchy.nameFault? none [] siblings ≠ none ∧
      ∃ s, (Draft.ofDocument d).answer = .ok s ∧ (s.named? "\u212Aart").isSome = true := by
  intro cities siblings d
  have tests := names_tested_alike
  have hascii : sameName "Kelvin" "kELVIN" = true :=
    (tests.ascii _ _ (by decide) (by decide)).1.trans (by decide)
  have hkelvin : sameName "\u212AELVIN" "kelvin" = true :=
    (tests.nearAscii _ _ (Or.inr (by decide))).mpr (by decide)
  have hdistinct : distinct ["\u212A", "k"] = ["\u212A"] :=
    (tests.cleared ["\u212A"] "k").trans (if_pos ((tests.listed _ _).mpr (by decide +kernel)))
  have hsiblings : Hierarchy.nameFault? none [] siblings ≠ none :=
    mt (tests.siblings none siblings (by decide +kernel)).mp (by decide +kernel)
  have hd : (Hierarchy.ofDocument d).answer = .ok { gates := d.toGates } := rfl
  obtain ⟨s, hs, hgates, -⟩ := (Draft.ofDocument_agrees d).2.2 _ hd
  have hfound := (tests.indexedGates d s hs).listed "\u212Aart"
  rw [hgates, (tests.listed _ _).mpr (by decide +kernel)] at hfound
  refine ⟨hascii, by decide, hkelvin, tests.equivalence.symm hkelvin, ?_,
    (tests.folded _ _).mpr (by decide +kernel), by decide +kernel, hdistinct,
    hsiblings, s, hs, hfound⟩
  exact Bool.eq_false_iff.mpr (mt (tests.folded _ _).mp (by decide +kernel))

end FeatureGates
