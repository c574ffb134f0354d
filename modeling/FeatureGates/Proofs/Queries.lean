import FeatureGates.Proofs.Entries
import FeatureGates.Proofs.FirstSpellings

/-!
Overrides from queries.

The pairs of a query are gone through once, and what a pair brings is put behind what came before;
repetitions are cleared at the end.  That is as if the values of each parameter were joined to one,
and what it does to a gate depends only on which of the three lists have an entry with its name.
-/

namespace FeatureGates
namespace Overrides

/-- The values that a query has for a parameter, whatever the case of the letters in its name. -/
def valuesOf (parameter : String) (pairs : List (String × String)) : List String :=
  (pairs.filter fun pair =>
    pair.1.toList.map Char.toLower = parameter.toList.map Char.toLower).map (·.2)

/-- All values of a parameter as one. -/
def joined (parameter : String) (pairs : List (String × String)) : String :=
  ",".intercalate (valuesOf parameter pairs)

/-- Some entry of some value of the parameter has the name of the gate. -/
def Names (pairs : List (String × String)) (parameter gate : String) : Prop :=
  ∃ value ∈ valuesOf parameter pairs, ∃ entry,
    Text.IsEntry value entry ∧ Text.fold entry = Text.fold gate

/-! ## Entries of a parameter -/

theorem entriesOf_eq (parameter : String) (pairs : List (String × String)) :
    entriesOf parameter pairs = Text.pieces (joined parameter pairs) := by
  have hkey : ∀ pair : String × String,
      Text.sameAsciiLetters pair.1.toList parameter.toList =
        decide (pair.1.toList.map Char.toLower = parameter.toList.map Char.toLower) := by
    intro pair
    rw [Bool.eq_iff_iff, decide_eq_true_iff]
    exact Text.sameAsciiLetters_iff _ _
  rw [joined, Text.pieces_intercalate, valuesOf, List.flatMap_map, entriesOf]
  simp only [hkey]

theorem names_iff {pairs : List (String × String)} {parameter gate : String} :
    Names pairs parameter gate ↔ Text.listsName (entriesOf parameter pairs) gate = true := by
  rw [Names, Text.exists_entry_iff, entriesOf_eq, joined, Text.pieces_intercalate,
    Text.listsName_iff]

instance (pairs : List (String × String)) (parameter gate : String) :
    Decidable (Names pairs parameter gate) :=
  decidable_of_iff _ names_iff.symm

theorem ofPairs_eq_ofQuery (pairs : List (String × String)) :
    ofPairs pairs = ofQuery (some (joined enabledParameter pairs))
      (some (joined disabledParameter pairs)) (some (joined toggledParameter pairs)) := by
  rw [ofPairs, entriesOf_eq, entriesOf_eq, entriesOf_eq]
  rfl

/-! ## One pass over the pairs -/

/-- Takes in a pair.  The first parameter that its key names is the one that gets the entries. -/
def gather (o : Overrides) (pair : String × String) : Overrides :=
  if Text.sameAsciiLetters pair.1.toList enabledParameter.toList then
    { o with enabled := o.enabled ++ Text.pieces pair.2 }
  else if Text.sameAsciiLetters pair.1.toList disabledParameter.toList then
    { o with disabled := o.disabled ++ Text.pieces pair.2 }
  else if Text.sameAsciiLetters pair.1.toList toggledParameter.toList then
    { o with toggled := o.toggled ++ Text.pieces pair.2 }
  else o

/-- Clears each list of repetitions. -/
def cleared (o : Overrides) : Overrides :=
  ⟨Text.distinct o.enabled, Text.distinct o.disabled, Text.distinct o.toggled⟩

/-- A key names one parameter only. -/
theorem not_sameAsciiLetters {key a b : List Char} (hab : a.map Char.toLower ≠ b.map Char.toLower)
    (ha : Text.sameAsciiLetters key a = true) : ¬Text.sameAsciiLetters key b = true := fun hb =>
  hab (((Text.sameAsciiLetters_iff _ _).mp ha).symm.trans ((Text.sameAsciiLetters_iff _ _).mp hb))

theorem entriesOf_cons_of_pos {parameter : String} {pair : String × String}
    (h : Text.sameAsciiLetters pair.1.toList parameter.toList = true)
    (rest : List (String × String)) : entriesOf parameter (pair :: rest) =
      Text.pieces pair.2 ++ entriesOf parameter rest := by
  rw [entriesOf, List.filter_cons, if_pos h, List.flatMap_cons]
  rfl

theorem entriesOf_cons_of_neg {parameter : String} {pair : String × String}
    (h : ¬Text.sameAsciiLetters pair.1.toList parameter.toList = true)
    (rest : List (String × String)) :
    entriesOf parameter (pair :: rest) = entriesOf parameter rest := by
  rw [entriesOf, List.filter_cons, if_neg h]
  rfl

theorem foldl_gather (pairs : List (String × String)) (o : Overrides) :
    pairs.foldl gather o = ⟨o.enabled ++ entriesOf enabledParameter pairs,
      o.disabled ++ entriesOf disabledParameter pairs,
      o.toggled ++ entriesOf toggledParameter pairs⟩ := by
  induction pairs generalizing o with
  | nil => simp [entriesOf]
  | cons pair rest ih =>
    rw [List.foldl_cons, ih, gather]
    by_cases henabled : Text.sameAsciiLetters pair.1.toList enabledParameter.toList = true
    · have hdisabled := not_sameAsciiLetters (b := disabledParameter.toList) (by decide) henabled
      have htoggled := not_sameAsciiLetters (b := toggledParameter.toList) (by decide) henabled
      rw [if_pos henabled, entriesOf_cons_of_pos henabled, entriesOf_cons_of_neg hdisabled,
        entriesOf_cons_of_neg htoggled, List.append_assoc]
    · rw [if_neg henabled, entriesOf_cons_of_neg henabled]
      by_cases hdisabled : Text.sameAsciiLetters pair.1.toList disabledParameter.toList = true
      · have htoggled := not_sameAsciiLetters (b := toggledParameter.toList) (by decide) hdisabled
        rw [if_pos hdisabled, entriesOf_cons_of_pos hdisabled, entriesOf_cons_of_neg htoggled,
          List.append_assoc]
      · rw [if_neg hdisabled, entriesOf_cons_of_neg hdisabled]
        by_cases htoggled : Text.sameAsciiLetters pair.1.toList toggledParameter.toList = true
        · rw [if_pos htoggled, entriesOf_cons_of_pos htoggled, List.append_assoc]
        · rw [if_neg htoggled, entriesOf_cons_of_neg htoggled]

theorem ofPairs_eq_cleared (pairs : List (String × String)) :
    ofPairs pairs = (pairs.foldl gather {}).cleared := by
  rw [foldl_gather]
  rfl

/-! ## What becomes of a gate -/

theorem listsName_distinct_entriesOf (parameter : String) (pairs : List (String × String))
    (gate : String) : Text.listsName (Text.distinct (entriesOf parameter pairs)) gate = true ↔
      Names pairs parameter gate := by
  rw [(Text.sameNames_distinct _).listsName_eq, names_iff]

theorem apply_ofPairs (pairs : List (String × String)) (gate : String) (computed : Decision) :
    (ofPairs pairs).apply gate computed =
      if Names pairs disabledParameter gate then .overridden false .disabled
      else if Names pairs enabledParameter gate then .overridden true .enabled
      else if Names pairs toggledParameter gate then .overridden (!computed.active) .toggled
      else computed :=
  if_congr (listsName_distinct_entriesOf disabledParameter pairs gate) rfl
    (if_congr (listsName_distinct_entriesOf enabledParameter pairs gate) rfl
      (if_congr (listsName_distinct_entriesOf toggledParameter pairs gate) rfl rfl))

theorem apply_ofPairs_congr {pairs pairs' : List (String × String)}
    (hsame : ∀ parameter ∈ [enabledParameter, disabledParameter, toggledParameter],
      Text.SameNames (entriesOf parameter pairs) (entriesOf parameter pairs'))
    (gate : String) (computed : Decision) :
    (ofPairs pairs).apply gate computed = (ofPairs pairs').apply gate computed := by
  have hnames : ∀ parameter ∈ [enabledParameter, disabledParameter, toggledParameter],
      (Names pairs parameter gate ↔ Names pairs' parameter gate) := by
    intro parameter hparameter
    rw [names_iff, names_iff, (hsame parameter hparameter).listsName_eq]
  simp only [List.forall_mem_cons] at hnames
  obtain ⟨henabled, hdisabled, htoggled, -⟩ := hnames
  rw [apply_ofPairs, apply_ofPairs]
  exact if_congr hdisabled rfl (if_congr henabled rfl (if_congr htoggled rfl rfl))

/-- Overrides from the pairs of a query are those from the joined values of the three parameters,
though the pairs are gone through once.  A gate is turned off if an entry of the one parameter has
its name, else turned on if an entry of the other has, else flipped if an entry of the third has, and
else left alone; neither order nor repetition nor spelling of the entries matters. -/
theorem ofPairs_by_values (pairs : List (String × String)) :
    ofPairs pairs = ofQuery (some (joined enabledParameter pairs))
      (some (joined disabledParameter pairs)) (some (joined toggledParameter pairs)) ∧
    ofPairs pairs = (pairs.foldl gather {}).cleared ∧
    (∀ gate computed, (ofPairs pairs).apply gate computed =
      if Names pairs disabledParameter gate then .overridden false .disabled
      else if Names pairs enabledParameter gate then .overridden true .enabled
      else if Names pairs toggledParameter gate then .overridden (!computed.active) .toggled
      else computed) ∧
    ∀ pairs', (∀ parameter ∈ [enabledParameter, disabledParameter, toggledParameter],
        Text.SameNames (entriesOf parameter pairs) (entriesOf parameter pairs')) →
      ∀ gate computed, (ofPairs pairs).apply gate computed = (ofPairs pairs').apply gate computed :=
  ⟨ofPairs_eq_ofQuery pairs, ofPairs_eq_cleared pairs, apply_ofPairs pairs,
    fun _ => apply_ofPairs_congr⟩

/-- Parameters in several spellings and more than once, and gates that two lists name. -/
theorem ofPairs_by_values_checkout :
    let pairs := [("market", "en-us"), ("enabledFeatures", " cart ,, ΔΕΛΤΑ"),
      ("DISABLEDFEATURES", "beta,CART"), ("EnabledFeatures", "gamma,δελτα"),
      ("toggledFeatures", "omega, gamma")]
    let pairs' := [("toggledfeatures", "GAMMA,Omega,omega"), ("disabledFeatures", "Cart"),
      ("disabledFeatures", "Beta"), ("enabledfeatures", "δελτα,Gamma,CART")]
    (ofPairs pairs).enabled = ["cart", "ΔΕΛΤΑ", "gamma"] ∧
      (ofPairs pairs).apply "Cart" .passed = .overridden false .disabled ∧
      (ofPairs pairs).apply "Gamma" .passed = .overridden true .enabled ∧
      (ofPairs pairs).apply "OMEGA" .passed = .overridden false .toggled ∧
      (ofPairs pairs).apply "market" .passed = .passed ∧
      ∀ gate computed,
        (ofPairs pairs).apply gate computed = (ofPairs pairs').apply gate computed := by
  intro pairs pairs'
  obtain ⟨hjoined, -, hgate, hsame⟩ := ofPairs_by_values pairs
  refine ⟨?_, (hgate _ _).trans (by decide +kernel), (hgate _ _).trans (by decide +kernel),
    (hgate _ _).trans (by decide +kernel), (hgate _ _).trans (by decide +kernel),
    hsame pairs' (by decide +kernel)⟩
  rw [hjoined]
  decide +kernel

end Overrides
end FeatureGates
