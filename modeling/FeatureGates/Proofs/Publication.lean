import FeatureGates.Store

/-!
The versions of a store.

Around a store its source changes in any way, and now and then the store is told to reload.  The
texts that were loaded on the way are found from the source alone, and they say all about the
store: their number is the version, and the last of them is what is published.  A reload that
fails leaves no trace.
-/

namespace FeatureGates

/-! ## What loading a source comes to -/

theorem mapError_eq_ok_iff {ε ε' α : Type} {f : ε → ε'} {e : Except ε α} {a : α} :
    e.mapError f = .ok a ↔ e = .ok a := by
  constructor
  · intro h
    cases e with
    | error fault => cases h
    | ok b => exact congrArg Except.ok (Except.ok.inj h)
  · rintro rfl
    rfl

theorem mapError_eq_error_iff {ε ε' α : Type} {f : ε → ε'} {e : Except ε α} {fault : ε'} :
    e.mapError f = .error fault ↔ ∃ found, e = .error found ∧ f found = fault := by
  constructor
  · intro h
    cases e with
    | error found => exact ⟨found, rfl, Except.error.inj h⟩
    | ok a => cases h
  · rintro ⟨found, rfl, rfl⟩
    rfl

namespace Source

/-- What is read, by what the source holds: the text whose UTF-8 a file has, if there is one. -/
inductive Reads : Source → Except ReadFault String → Prop
  | fixed (text : String) : Reads (fixed text) (.ok text)
  | memory (text : String) : Reads (memory text) (.ok text)
  | text (text : String) : Reads (file (some text.toUTF8)) (.ok text)
  | bytes {bytes : ByteArray} (h : ∀ text : String, text.toUTF8 ≠ bytes) :
    Reads (file (some bytes)) (.error .invalidData)
  | missing : Reads (file none) (.error .notFound)

theorem reads_iff {s : Source} {outcome : Except ReadFault String} :
    s.Reads outcome ↔ s.read = outcome := by
  constructor
  · intro h
    cases h with
    | fixed | memory | missing => rfl
    | text text =>
      have hvalid : String.fromUTF8? text.toUTF8 = some text := by
        rw [String.fromUTF8?, String.toUTF8_eq_toByteArray, dif_pos text.isValidUTF8]
        rfl
      rw [read, hvalid]
      rfl
    | @bytes bytes h =>
      have hinvalid : String.fromUTF8? bytes = none := by
        rw [String.fromUTF8?, dif_neg]
        exact fun hvalid => h (String.fromUTF8 bytes hvalid) rfl
      rw [read, hinvalid]
      rfl
  · intro h
    subst h
    cases s with
    | fixed text => exact .fixed text
    | memory text => exact .memory text
    | file content =>
      cases content with
      | none => exact .missing
      | some bytes =>
        rw [read, String.fromUTF8?]
        split
        case isTrue hvalid => exact .text (String.fromUTF8 bytes hvalid)
        case isFalse hinvalid =>
          refine .bytes fun text htext => hinvalid ?_
          exact htext ▸ text.isValidUTF8

/-- The source holds a text that loads. -/
def Loads (s : Source) (h : Hierarchy) : Prop :=
  ∃ text, s.Reads (.ok text) ∧ (Hierarchy.load text).answer = .ok h

/-- There is no text to load, or the text that there is does not load. -/
def Fails (s : Source) : StoreFault → Prop
  | .read fault => s.Reads (.error fault)
  | .load fault => ∃ text, s.Reads (.ok text) ∧ (Hierarchy.load text).answer = .error fault

theorem answer_load_eq_ok_iff {s : Source} {h : Hierarchy} :
    s.load.answer = .ok h ↔ s.Loads h := by
  simp only [Loads, reads_iff]
  rw [load]
  cases hread : s.read with
  | error fault => simp
  | ok text => simp [mapError_eq_ok_iff]

theorem answer_load_eq_error_iff {s : Source} {fault : StoreFault} :
    s.load.answer = .error fault ↔ s.Fails fault := by
  rw [load]
  cases hread : s.read with
  | error found => cases fault <;> simp [Fails, reads_iff, hread]
  | ok text => cases fault <;> simp [Fails, reads_iff, hread, mapError_eq_error_iff]

theorem loads_or_fails (s : Source) : (∃ h, s.Loads h) ∨ ∃ fault, s.Fails fault := by
  cases h : s.load.answer with
  | ok h' => exact Or.inl ⟨h', answer_load_eq_ok_iff.mp h⟩
  | error fault => exact Or.inr ⟨fault, answer_load_eq_error_iff.mp h⟩

theorem Loads.not_fails {s : Source} {h : Hierarchy} (hl : s.Loads h) (fault : StoreFault) :
    ¬s.Fails fault := by
  rw [← answer_load_eq_error_iff, answer_load_eq_ok_iff.mpr hl]
  nofun

/-- The text that is loaded, if loading succeeds. -/
def loadable? (s : Source) : Option String := do
  let text ← s.read.toOption
  let _ ← (Hierarchy.load text).answer.toOption
  return text

theorem Loads.loadable? {s : Source} {h : Hierarchy} (hl : s.Loads h) :
    ∃ text, s.loadable? = some text ∧ (Hierarchy.load text).answer = .ok h := by
  obtain ⟨text, hreads, hload⟩ := hl
  exact ⟨text, by simp [Source.loadable?, reads_iff.mp hreads, hload, Except.toOption], hload⟩

theorem Fails.loadable? {s : Source} {fault : StoreFault} (hf : s.Fails fault) :
    s.loadable? = none := by
  cases fault with
  | read fault => simp [Source.loadable?, reads_iff.mp hf, Except.toOption]
  | load fault =>
    obtain ⟨text, hreads, hload⟩ := hf
    simp [Source.loadable?, reads_iff.mp hreads, hload, Except.toOption]

end Source

/-! ## Runs -/

/-- What may be done to the place that documents come from. -/
inductive Change where
  | write (document : String)
  | writeBytes (bytes : ByteArray)
  | remove

/-- What may happen around a store. -/
inductive Store.Step where
  | change (c : Change)
  | reload

namespace Source

def change (s : Source) : Change → Source
  | .write document => s.write document
  | .writeBytes bytes => s.writeBytes bytes
  | .remove => s.remove

def step (s : Source) : Store.Step → Source
  | .change c => s.change c
  | .reload => s

def run (s : Source) (steps : List Store.Step) : Source := steps.foldl step s

/-- The text that a step loads. -/
def loadedText? (s : Source) : Store.Step → Option String
  | .change _ => none
  | .reload => s.loadable?

/-- The texts that are loaded on the way, earliest first. -/
def loadedTexts (s : Source) : List Store.Step → List String
  | [] => []
  | step :: rest => (s.loadedText? step).toList ++ (s.step step).loadedTexts rest

end Source

namespace Store

def step (s : Store) : Step → Store
  | .change c => { s with source := s.source.change c }
  | .reload => s.reload.answer.2

def run (s : Store) (steps : List Step) : Store := steps.foldl step s

theorem answer_reload_of_loads {s : Store} {h : Hierarchy} (hl : s.source.Loads h) :
    s.reload.answer =
      (.ok (s.version + 1), { s with snapshot := { h with version := s.version + 1 } }) := by
  rw [reload, Noted.answer_bind, Source.answer_load_eq_ok_iff.mpr hl]
  rfl

theorem answer_reload_of_fails {s : Store} {fault : StoreFault} (hf : s.source.Fails fault) :
    s.reload.answer = (.error fault, s) := by
  rw [reload, Noted.answer_bind, Source.answer_load_eq_error_iff.mpr hf]
  rfl

theorem answer_reload_eq_ok_iff (s : Store) {version : Nat} :
    s.reload.answer.1 = .ok version ↔ version = s.version + 1 ∧ ∃ h, s.source.Loads h := by
  obtain ⟨h, hl⟩ | ⟨fault, hf⟩ := s.source.loads_or_fails
  · rw [answer_reload_of_loads hl, Except.ok.injEq, eq_comm, and_iff_left ⟨h, hl⟩]
  · have hno : ¬∃ h, s.source.Loads h := fun ⟨h, hl⟩ => hl.not_fails fault hf
    rw [answer_reload_of_fails hf]
    simp [hno]

theorem answer_reload_eq_error_iff (s : Store) {fault : StoreFault} :
    s.reload.answer.1 = .error fault ↔ s.source.Fails fault := by
  rw [← Source.answer_load_eq_error_iff]
  cases h : s.source.load.answer with
  | ok h' =>
    rw [answer_reload_of_loads (Source.answer_load_eq_ok_iff.mp h)]
    simp
  | error found =>
    rw [answer_reload_of_fails (Source.answer_load_eq_error_iff.mp h)]
    simp only [Except.error.injEq]

theorem source_step (s : Store) (step : Step) : (s.step step).source = s.source.step step := by
  cases step with
  | change c => rfl
  | reload =>
    show s.reload.answer.2.source = s.source
    obtain ⟨h, hl⟩ | ⟨fault, hf⟩ := s.source.loads_or_fails
    · rw [answer_reload_of_loads hl]
    · rw [answer_reload_of_fails hf]

theorem source_run (s : Store) (steps : List Step) :
    (s.run steps).source = s.source.run steps := by
  induction steps generalizing s with
  | nil => rfl
  | cons step rest ih => exact (ih (s.step step)).trans (by rw [source_step]; rfl)

theorem run_append (s : Store) (steps later : List Step) :
    s.run (steps ++ later) = (s.run steps).run later := List.foldl_append

/-- The last of the texts that were loaded is published, and their number is its version. -/
structure Publishes (s : Store) (texts : List String) : Prop where
  version : s.version = texts.length
  loaded : ∃ text h, texts.getLast? = some text ∧ (Hierarchy.load text).answer = .ok h ∧
    s.snapshot = { h with version := s.version }

namespace Publishes

variable {s : Store} {texts : List String}

theorem step (hs : s.Publishes texts) (step : Step) :
    (s.step step).Publishes (texts ++ (s.source.loadedText? step).toList) := by
  cases step with
  | change c => exact (List.append_nil texts).symm ▸ ⟨hs.version, hs.loaded⟩
  | reload =>
    show s.reload.answer.2.Publishes (texts ++ s.source.loadable?.toList)
    obtain ⟨h, hl⟩ | ⟨fault, hf⟩ := s.source.loads_or_fails
    · obtain ⟨text, htext, hload⟩ := hl.loadable?
      rw [answer_reload_of_loads hl, htext]
      refine ⟨?_, text, h, List.getLast?_concat, hload, rfl⟩
      show s.version + 1 = _
      simp [hs.version]
    · rw [answer_reload_of_fails hf, hf.loadable?]
      exact (List.append_nil texts).symm ▸ hs

theorem run (hs : s.Publishes texts) (steps : List Step) :
    (s.run steps).Publishes (texts ++ s.source.loadedTexts steps) := by
  induction steps generalizing s texts with
  | nil => exact (List.append_nil texts).symm ▸ hs
  | cons step rest ih =>
    have hrest := ih (hs.step step)
    rw [source_step, List.append_assoc] at hrest
    exact hrest

end Publishes

/-! ## The first load -/

theorem answer_create_eq_error_iff {source : Source} {fault : StoreFault} :
    (create source).answer = .error fault ↔ source.Fails fault := by
  rw [← Source.answer_load_eq_error_iff, create, Noted.answer_map]
  cases source.load.answer <;> simp [Except.map]

theorem publishes_create {source : Source} {s : Store} (hs : (create source).answer = .ok s) :
    s.source = source ∧ ∃ text, source.loadable? = some text ∧ s.Publishes [text] := by
  obtain ⟨h, hl⟩ | ⟨fault, hf⟩ := source.loads_or_fails
  · rw [create, Noted.answer_map, Source.answer_load_eq_ok_iff.mpr hl] at hs
    obtain rfl := Except.ok.inj hs
    obtain ⟨text, htext, hload⟩ := hl.loadable?
    exact ⟨rfl, text, htext, rfl, text, h, rfl, hload, rfl⟩
  · rw [answer_create_eq_error_iff.mpr hf] at hs
    cases hs

end Store

/-! ## A counter beside the snapshot -/

/-- A store with two cells: the snapshot, and apart from it the last version that was given. -/
structure SplitStore where
  source : Source
  current : Hierarchy
  lastVersion : Nat

namespace SplitStore

def create (source : Source) : Noted (Except StoreFault SplitStore) := do
  match ← source.load with
  | .error fault => return .error fault
  | .ok h => return .ok ⟨source, { h with version := 1 }, 1⟩

/-- Takes the next version before the load, and records it after the snapshot was exchanged. -/
def reload (s : SplitStore) : Noted (Except StoreFault Nat × SplitStore) := do
  let version := s.lastVersion + 1
  match ← s.source.load with
  | .error fault => return (.error fault, s)
  | .ok h =>
    let exchanged := { s with current := { h with version } }
    note (.published version h.size)
    return (.ok version, { exchanged with lastVersion := version })

def step (s : SplitStore) : Store.Step → SplitStore
  | .change c => { s with source := s.source.change c }
  | .reload => s.reload.answer.2

def run (s : SplitStore) (steps : List Store.Step) : SplitStore := steps.foldl step s

end SplitStore

namespace Store

/-- The store with both cells in step. -/
def split (s : Store) : SplitStore := ⟨s.source, s.snapshot, s.version⟩

theorem answer_create_split (source : Source) :
    (SplitStore.create source).answer = (create source).answer.map split := by
  rw [SplitStore.create, create, Noted.answer_bind, Noted.answer_map]
  cases source.load.answer <;> rfl

theorem answer_reload_split (s : Store) :
    s.split.reload.answer = (s.reload.answer.1, s.reload.answer.2.split) := by
  have hsource : s.split.source = s.source := rfl
  rw [SplitStore.reload, reload, Noted.answer_bind, Noted.answer_bind, hsource]
  cases s.source.load.answer <;> rfl

theorem run_split (s : Store) (steps : List Step) : s.split.run steps = (s.run steps).split := by
  induction steps generalizing s with
  | nil => rfl
  | cons step rest ih =>
    have hstep : s.split.step step = (s.step step).split := by
      cases step with
      | change c => rfl
      | reload => exact congrArg Prod.snd s.answer_reload_split
    exact (congrArg (SplitStore.run · rest) hstep).trans (ih (s.step step))

/-! ## Runs from the first load on -/

/-- What a store publishes after any run.  Creating it fails just when the first load does.  From
then on its version counts the loads that succeeded, and it publishes the hierarchy of the text
that was loaded last.  A reload answers the next version just when the source holds a text that
loads; otherwise it answers what was wrong, and whatever happens later is as if it had not been
tried.  A store that keeps its version in a cell of its own does the same. -/
theorem published_after_run (source : Source) :
    (∀ fault, (create source).answer = .error fault ↔ source.Fails fault) ∧
    ∀ s, (create source).answer = .ok s → ∀ steps : List Step,
      let now := s.run steps
      now.source = source.run steps ∧
      now.version = 1 + (source.loadedTexts steps).length ∧
      now.snapshot.version = 1 + (source.loadedTexts steps).length ∧
      (∃ text h, (source.loadedTexts (.reload :: steps)).getLast? = some text ∧
        (Hierarchy.load text).answer = .ok h ∧ now.snapshot.gates = h.gates ∧
        now.snapshot.roots = h.roots ∧ ∀ name, now.snapshot.named? name = h.named? name) ∧
      (∀ version, now.reload.answer.1 = .ok version ↔
        version = now.version + 1 ∧ ∃ h, (source.run steps).Loads h) ∧
      (∀ fault, now.reload.answer.1 = .error fault ↔ (source.run steps).Fails fault) ∧
      (∀ fault, (source.run steps).Fails fault → now.reload.answer.2 = now ∧
        ∀ later, s.run (steps ++ .reload :: later) = s.run (steps ++ later)) ∧
      ∃ two, (SplitStore.create source).answer = .ok two ∧
        (two.run steps).current = now.snapshot ∧ (two.run steps).lastVersion = now.version ∧
        (two.run steps).reload.answer.1 = now.reload.answer.1 := by
  refine ⟨fun fault => answer_create_eq_error_iff, fun s hs steps => ?_⟩
  intro now
  obtain ⟨rfl, first, hloadable, hfirst⟩ := publishes_create hs
  have hsource : now.source = s.source.run steps := source_run s steps
  have htexts : s.source.loadedTexts (.reload :: steps) = [first] ++ s.source.loadedTexts steps := by
    show s.source.loadable?.toList ++ _ = _
    rw [hloadable]
    rfl
  obtain ⟨hversion, text, h, hlast, hload, hsnapshot⟩ := hfirst.run steps
  have hcount : now.version = 1 + (s.source.loadedTexts steps).length := by
    rw [hversion, List.length_append]
    rfl
  have hfails : ∀ fault, (s.source.run steps).Fails fault → now.reload.answer.2 = now := by
    intro fault hf
    rw [answer_reload_of_fails (hsource ▸ hf)]
  refine ⟨hsource, hcount, hcount, ?_, fun version => ?_, fun fault => ?_, fun fault hf => ?_, ?_⟩
  · rw [htexts]
    refine ⟨text, h, hlast, hload, ?_⟩
    show (s.run steps).snapshot.gates = h.gates ∧ _
    rw [hsnapshot]
    exact ⟨rfl, rfl, fun name => rfl⟩
  · rw [← hsource, now.answer_reload_eq_ok_iff]
  · rw [← hsource, now.answer_reload_eq_error_iff]
  · refine ⟨hfails fault hf, fun later => ?_⟩
    rw [run_append, run_append]
    exact congrArg (run · later) (hfails fault hf)
  · -- The split store keeps its cells in step with the store at every point of the run.
    refine ⟨s.split, ?_, ?_, ?_, ?_⟩
    · rw [answer_create_split, hs]
      rfl
    all_goals rw [run_split]
    · rfl
    · rfl
    · rw [answer_reload_split]

def oneGate : String := "\x7b\"gates\": \x7b\"alpha\": \x7b\x7d\x7d\x7d"

def twoGates : String :=
  "\x7b\"gates\": \x7b\"alpha\": \x7b\x7d, \"beta\": \x7b\x7d\x7d\x7d"

def clash : String := "\x7b\"gates\": \x7b\"alpha\": \x7b\x7d, \"ALPHA\": \x7b\x7d\x7d\x7d"

/-- Every way to fail, and then a document that loads. -/
def mishaps : List Step :=
  [.change (.write clash), .reload, .change (.writeBytes ⟨#[0xFF]⟩), .reload, .change .remove,
    .reload, .change (.write twoGates), .reload, .change (.write oneGate)]

theorem published_after_run_mishaps :
    let source := Source.file (some oneGate.toUTF8)
    let fault := StoreFault.load (.document (.duplicate "ALPHA" "ALPHA"))
    ∃ s, (create source).answer = .ok s ∧
      (s.run mishaps).version = 2 ∧ (s.run mishaps).snapshot.gates.map (·.name) = ["alpha", "beta"] ∧
      (s.run mishaps).reload.answer.1 = .ok 3 ∧
      (s.run (mishaps.take 1)).reload.answer.1 = .error fault ∧
      s.run (mishaps.take 1 ++ .reload :: mishaps.drop 2) =
        s.run (mishaps.take 1 ++ mishaps.drop 2) := by
  intro source fault
  obtain ⟨hcreate, hruns⟩ := published_after_run source
  have hloads : ∃ h, (Hierarchy.load oneGate).answer = .ok h := by
    have hok : (Hierarchy.load oneGate).answer.toOption.isSome = true := by decide +kernel
    cases h : (Hierarchy.load oneGate).answer with
    | ok h' => exact ⟨h', rfl⟩
    | error found =>
      rw [h] at hok
      cases hok
  obtain ⟨s, hs⟩ : ∃ s, (create source).answer = .ok s := by
    obtain ⟨h, hload⟩ := hloads
    cases h' : (create source).answer with
    | ok s => exact ⟨s, rfl⟩
    | error fault =>
      exact absurd ((hcreate fault).mp h')
        (Source.Loads.not_fails ⟨oneGate, .text oneGate, hload⟩ fault)
  have htexts : source.loadedTexts (.reload :: mishaps) = [oneGate, twoGates] := by decide +kernel
  obtain ⟨-, hversion, -, ⟨text, h, hlast, hload, hgates, -⟩, hok, -⟩ := hruns s hs mishaps
  obtain ⟨-, -, -, -, -, herror, hfails, -⟩ := hruns s hs (mishaps.take 1)
  have hclash : (source.run (mishaps.take 1)).Fails fault := by
    have hfault : (match (Hierarchy.load clash).answer with
        | .error found => some found
        | .ok _ => none) = some (.document (.duplicate "ALPHA" "ALPHA")) := by decide +kernel
    refine ⟨clash, .text clash, ?_⟩
    cases h : (Hierarchy.load clash).answer with
    | ok h' =>
      rw [h] at hfault
      cases hfault
    | error found =>
      rw [h] at hfault
      exact congrArg Except.error (Option.some.inj hfault)
  have htwo : (s.run mishaps).version = 2 := by
    rw [hversion]
    decide +kernel
  refine ⟨s, hs, htwo, ?_, (hok 3).mpr ⟨by rw [htwo], ?_⟩, (herror fault).mpr hclash,
    (hfails fault hclash).2 _⟩
  · rw [htexts] at hlast
    obtain rfl : twoGates = text := Option.some.inj hlast
    have hnames : (Hierarchy.load twoGates).answer.toOption.map (fun h => h.gates.map (·.name)) =
        some ["alpha", "beta"] := by decide +kernel
    rw [hgates]
    rw [hload] at hnames
    exact Option.some.inj hnames
  · obtain ⟨h, hload⟩ := hloads
    exact ⟨h, oneGate, .text oneGate, hload⟩

end Store
end FeatureGates
