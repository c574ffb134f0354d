import FeatureGates.Proofs.Requests

/-!
Campaign filters.

A campaign filter is decided by the query values that a request was built from.  Clearing the
campaigns of repetitions takes no name from them, and the filter asks only whether a name is there:
so it is decided alike for any two requests whose values have entries of the same names.
-/

namespace FeatureGates
namespace Condition

/-- Some entry of some of the values has the name of an element of the list. -/
def Meets (values names : List String) : Prop :=
  ∃ value ∈ values, ∃ entry, Text.IsEntry value entry ∧
    ∃ name ∈ names, Text.fold entry = Text.fold name

theorem meets_iff {values names : List String} : Meets values names ↔
    ∃ key ∈ (values.flatMap Text.pieces).map Text.fold, key ∈ names.map Text.fold := by
  rw [Meets, Text.exists_entry_iff, ← Text.any_listsName_iff]
  simp only [List.any_eq_true, Text.listsName_iff, @eq_comm String]

theorem any_campaigns_iff (parts : List RequestPart) (names : List String) :
    (Request.ofParts parts).campaigns.any (Text.listsName names) = true ↔
      Meets (parts.filterMap (·.campaigns?)) names := by
  rw [Request.campaigns_ofParts, Text.any_listsName_iff, meets_iff, Request.joinedCampaigns,
    Text.pieces_intercalate]
  simp only [(Text.sameNames_distinct _).mem_iff]

theorem holds_campaign_iff {parts : List RequestPart} {c : Circumstances}
    (hc : c.campaigns = (Request.ofParts parts).campaigns) (enabled disabled : List String) :
    (campaign enabled disabled).holds c = true ↔
      ¬Meets (parts.filterMap (·.campaigns?)) disabled ∧
        (enabled = [] ∨ Meets (parts.filterMap (·.campaigns?)) enabled) := by
  rw [holds, campaignHolds, hc, Bool.and_eq_true, Bool.or_eq_true, Bool.not_eq_true',
    ← Bool.not_eq_true, List.isEmpty_iff, any_campaigns_iff, any_campaigns_iff]

/-- A campaign filter passes if no entry of a value is disabled and, unless nothing is enabled, some
entry is enabled.  Neither order nor repetition nor spelling matters, of the entries or of the lists,
nor which value an entry is in. -/
theorem campaign_by_entries (parts : List RequestPart) (c : Circumstances)
    (hc : c.campaigns = (Request.ofParts parts).campaigns) (enabled disabled : List String) :
    ((campaign enabled disabled).holds c = true ↔
      ¬Meets (parts.filterMap (·.campaigns?)) disabled ∧
        (enabled = [] ∨ Meets (parts.filterMap (·.campaigns?)) enabled)) ∧
    ∀ (parts' : List RequestPart) (c' : Circumstances) (enabled' disabled' : List String),
      c'.campaigns = (Request.ofParts parts').campaigns →
      Text.SameNames ((parts.filterMap (·.campaigns?)).flatMap Text.pieces)
        ((parts'.filterMap (·.campaigns?)).flatMap Text.pieces) →
      Text.SameNames enabled enabled' → Text.SameNames disabled disabled' →
      (campaign enabled disabled).holds c = (campaign enabled' disabled').holds c' := by
  refine ⟨holds_campaign_iff hc enabled disabled,
    fun parts' c' enabled' disabled' hc' hentries henabled hdisabled => ?_⟩
  have hmeets : ∀ {names names' : List String}, Text.SameNames names names' →
      (Meets (parts.filterMap (·.campaigns?)) names ↔
        Meets (parts'.filterMap (·.campaigns?)) names') := by
    intro names names' hnames
    simp only [meets_iff, hentries.mem_iff, hnames.mem_iff]
  have hempty : enabled = [] ↔ enabled' = [] := by
    rw [← List.isEmpty_iff, henabled.isEmpty_eq, List.isEmpty_iff]
  rw [Bool.eq_iff_iff, holds_campaign_iff hc, holds_campaign_iff hc', hmeets henabled,
    hmeets hdisabled, hempty]

/-- The same names in other values, in another order and another case: a capital sigma at the end of
a word has the small form that words end in. -/
theorem campaign_by_entries_season :
    let parts : List RequestPart :=
      [.campaigns " spring, Summer,,SPRING", .customer "c-1", .campaigns "ΑΥΓΟΥΣΤΟΣ"]
    let parts' : List RequestPart := [.campaigns "αυγουστος", .campaigns "SUMMER,Spring,spring"]
    let c : List RequestPart → Circumstances := fun parts =>
      { gate := "cart", campaigns := (Request.ofParts parts).campaigns, customer := none,
        client := none, environment := none, networks := fun _ => none }
    (Request.ofParts parts).campaigns = ["spring", "Summer", "ΑΥΓΟΥΣΤΟΣ"] ∧
      (campaign ["winter", "Αυγουστος"] ["autumn"]).holds (c parts) = true ∧
      (campaign ["αυγουστος", "WINTER"] ["autumn", "AUTUMN"]).holds (c parts') = true ∧
      (campaign ["spring"] ["SUMMER"]).holds (c parts) = false := by
  intro parts parts' c
  have hpass := (campaign_by_entries parts (c parts) rfl ["winter", "Αυγουστος"] ["autumn"]).2
    parts' (c parts') ["αυγουστος", "WINTER"] ["autumn", "AUTUMN"] rfl (by decide +kernel)
    (by decide +kernel) (by decide +kernel)
  have hstop := (campaign_by_entries parts (c parts) rfl ["spring"] ["SUMMER"]).1
  have hmeets : Meets (parts.filterMap (·.campaigns?)) ["SUMMER"] :=
    meets_iff.mpr (by decide +kernel)
  refine ⟨by decide +kernel, by decide +kernel, hpass.symm.trans (by decide +kernel), ?_⟩
  exact Bool.eq_false_iff.mpr fun hholds => (hstop.mp hholds).1 hmeets

end Condition
end FeatureGates
