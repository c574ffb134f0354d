import FeatureGates.Filter
import FeatureGates.Network.Table
import FeatureGates.Proofs.Folding
import Mathlib.Data.List.Induction

/-!
Tables of networks.

A table is built entry by entry, and what it finds under a name is what the entries of that name
list, one after the other.  An address filter asks whether one of these networks has the client's
address, which does not depend on their order: so it is decided alike by all tables that list the
same networks under a name, however the entries were ordered and spelled.
-/

namespace FeatureGates
namespace NetworkTable

variable {entries entries' : List (String × List Network)} {name : String} {network : Network}

/-- The networks of all entries of a name, in the order of the entries. -/
def networksNamed (entries : List (String × List Network)) (name : String) : List Network :=
  (entries.filter fun entry => Text.fold entry.1 = Text.fold name).flatMap (·.2)

theorem networksNamed_append_singleton (entry : String × List Network) :
    networksNamed (entries ++ [entry]) name =
      networksNamed entries name ++
        if Text.fold entry.1 = Text.fold name then entry.2 else [] := by
  rw [networksNamed, List.filter_append, List.flatMap_append, networksNamed]
  by_cases h : Text.fold entry.1 = Text.fold name <;> simp [h]

theorem networksNamed_eq_nil (h : ¬∃ entry ∈ entries, Text.fold entry.1 = Text.fold name) :
    networksNamed entries name = [] := by
  have hnone : ∀ entry ∈ entries,
      ¬decide (Text.fold entry.1 = Text.fold name) = true := by
    intro entry hentry hname
    exact h ⟨entry, hentry, of_decide_eq_true hname⟩
  rw [networksNamed, List.filter_eq_nil_iff.mpr hnone, List.flatMap_nil]

theorem find?_add (t : NetworkTable) (name other : String) (networks : List Network) :
    (t.add name networks).find? other =
      if Text.fold name = Text.fold other then some ((t.find? other).getD [] ++ networks)
      else t.find? other := by
  rw [find?, add, Directory.find?_insert]
  split
  · rename_i hfold
    rw [hfold]
    rfl
  · rfl

theorem ofEntries_append_singleton (entry : String × List Network) :
    ofEntries (entries ++ [entry]) = (ofEntries entries).add entry.1 entry.2 := by
  rw [ofEntries, List.foldl_append, List.foldl_cons, List.foldl_nil, ofEntries]

/-- The invariant of building a table: up to each entry, a name that was met has the networks of its
entries so far, and no other name has any. -/
theorem find?_ofEntries (entries : List (String × List Network)) (name : String) :
    (ofEntries entries).find? name =
      if ∃ entry ∈ entries, Text.fold entry.1 = Text.fold name then
        some (networksNamed entries name)
      else none := by
  induction entries using List.reverseRecOn with
  | nil => rfl
  | append_singleton entries entry ih =>
    rw [ofEntries_append_singleton, find?_add, ih, networksNamed_append_singleton]
    by_cases hentry : Text.fold entry.1 = Text.fold name
    · have hmet : ∃ e ∈ entries ++ [entry], Text.fold e.1 = Text.fold name :=
        ⟨entry, by simp, hentry⟩
      rw [if_pos hentry, if_pos hmet, if_pos hentry]
      split
      · rfl
      · rename_i hnone
        rw [networksNamed_eq_nil hnone]
        rfl
    · have hmet : (∃ e ∈ entries ++ [entry], Text.fold e.1 = Text.fold name) ↔
          ∃ e ∈ entries, Text.fold e.1 = Text.fold name := by
        simp [or_and_right, exists_or, hentry]
      simp only [if_neg hentry, hmet, List.append_nil]

theorem getD_find?_ofEntries (entries : List (String × List Network)) (name : String) :
    ((ofEntries entries).find? name).getD [] = networksNamed entries name := by
  rw [find?_ofEntries]
  split
  · rfl
  · rename_i hnone
    exact (networksNamed_eq_nil hnone).symm

theorem isSome_find?_ofEntries (entries : List (String × List Network)) (name : String) :
    ((ofEntries entries).find? name).isSome = true ↔
      ∃ entry ∈ entries, Text.sameName entry.1 name = true := by
  simp only [find?_ofEntries, Text.sameName_iff]
  split
  · rename_i hsome
    exact iff_of_true rfl hsome
  · rename_i hnone
    exact iff_of_false nofun hnone

/-- Some entry of the name, in whatever case, lists the network. -/
def Offers (entries : List (String × List Network)) (name : String) (network : Network) : Prop :=
  ∃ entry ∈ entries, Text.sameName entry.1 name = true ∧ network ∈ entry.2

theorem mem_networksNamed : network ∈ networksNamed entries name ↔ Offers entries name network := by
  simp only [networksNamed, List.mem_flatMap, List.mem_filter, decide_eq_true_eq, Offers,
    Text.sameName_iff, and_assoc]

theorem offers_append : Offers (entries ++ entries') name network ↔
    Offers entries name network ∨ Offers entries' name network := by
  simp only [Offers, List.mem_append, or_and_right, exists_or]

theorem offers_spellings {title : String}
    (hnames : ∀ entry ∈ entries, Text.fold entry.1 = Text.fold title) :
    Offers entries name network ↔
      Text.sameName title name = true ∧ network ∈ entries.flatMap (·.2) := by
  simp only [Offers, Text.sameName_iff, List.mem_flatMap]
  constructor
  · rintro ⟨entry, hentry, hname, hnetwork⟩
    exact ⟨(hnames entry hentry).symm.trans hname, entry, hentry, hnetwork⟩
  · rintro ⟨hname, entry, hentry, hnetwork⟩
    exact ⟨entry, hentry, (hnames entry hentry).trans hname, hnetwork⟩

/-- The same networks under the same names: entries in another order, or an entry whose networks are
dealt out to entries under spellings of its name, and these ways back and one after the other. -/
inductive Regrouped : List (String × List Network) → List (String × List Network) → Prop
  | reordered {entries entries' : List (String × List Network)} :
      entries.Perm entries' → Regrouped entries entries'
  | split {name : String} {networks : List Network} {parts rest : List (String × List Network)} :
      (∀ part ∈ parts, Text.fold part.1 = Text.fold name) →
      networks.Perm (parts.flatMap (·.2)) →
      Regrouped ((name, networks) :: rest) (parts ++ rest)
  | symm {entries entries' : List (String × List Network)} :
      Regrouped entries entries' → Regrouped entries' entries
  | trans {entries entries' entries'' : List (String × List Network)} :
      Regrouped entries entries' → Regrouped entries' entries'' → Regrouped entries entries''

theorem Regrouped.offers_iff (h : Regrouped entries entries') (name : String) (network : Network) :
    Offers entries name network ↔ Offers entries' name network := by
  induction h with
  | reordered hperm => simp only [Offers, hperm.mem_iff]
  | @split title networks parts rest hnames hnetworks =>
    have hsplit : Offers [(title, networks)] name network ↔ Offers parts name network := by
      rw [offers_spellings hnames, ← hnetworks.mem_iff]
      simp [Offers]
    rw [← List.singleton_append, offers_append, offers_append, hsplit]
  | symm _ ih => exact ih.symm
  | trans _ _ ih ih' => exact ih.trans ih'

end NetworkTable

namespace Condition

open NetworkTable

theorem addressHolds_iff (networks : Option (List Network)) (client : Option Address) :
    addressHolds networks client = true ↔
      ∃ address, client = some address ∧
        ∃ network ∈ networks.getD [], network.contains address = true := by
  cases client <;> cases networks <;> simp [addressHolds]

theorem holds_ipAddress_iff {entries : List (String × List Network)} {c : Circumstances}
    (hc : c.networks = (ofEntries entries).find?) (name : String) :
    (ipAddress name).holds c = true ↔
      ∃ address, c.client = some address ∧
        ∃ network, Offers entries name network ∧ network.contains address = true := by
  rw [holds, addressHolds_iff, hc, getD_find?_ofEntries]
  simp only [mem_networksNamed]

/-- A name is known to a table if an entry has it, in whatever case, and what it stands for are the
networks of all these entries.  So an address filter passes if the client's address is known and in
one of them, and neither the order of the entries nor how a name's networks are divided among its
spellings matters. -/
theorem ipAddress_by_entries (entries : List (String × List Network)) (name : String) :
    (ofEntries entries).find? name =
      (if ∃ entry ∈ entries, Text.fold entry.1 = Text.fold name then
        some (networksNamed entries name)
      else none) ∧
    ∀ c : Circumstances, c.networks = (ofEntries entries).find? →
      ((ipAddress name).holds c = true ↔
        ∃ address, c.client = some address ∧
          ∃ network, Offers entries name network ∧ network.contains address = true) ∧
      ∀ (entries' : List (String × List Network)) (c' : Circumstances),
        Regrouped entries entries' → c'.client = c.client →
        c'.networks = (ofEntries entries').find? →
        (ipAddress name).holds c' = (ipAddress name).holds c := by
  refine ⟨find?_ofEntries entries name, fun c hc => ⟨holds_ipAddress_iff hc name,
    fun entries' c' hentries hclient hc' => ?_⟩⟩
  rw [Bool.eq_iff_iff, holds_ipAddress_iff hc, holds_ipAddress_iff hc', hclient]
  simp only [hentries.offers_iff]

/-- Two spellings of a name in one table, and in another table a third that has the networks of
both.  A client in one of the networks passes by either table, and a client elsewhere, or one whose
address is not known, by neither. -/
theorem ipAddress_by_entries_office :
    let office := Network.ofV4 0x0a000000#32 8 (by decide)
    let router := Network.ofV4 0xc0a80107#32 32 (by decide)
    let guests := Network.ofV4 0xc0a80200#32 24 (by decide)
    let entries := [("CorpNet", [office]), ("guests", [guests]), ("corpnet", [router])]
    let entries' := [("guests", [guests]), ("CORPNET", [router, office])]
    let c : Option Address → List (String × List Network) → Circumstances := fun client entries =>
      { gate := "cart", campaigns := [], customer := none, client, environment := none,
        networks := (ofEntries entries).find? }
    let desk : Option Address := some (.v4 0x0a010203#32)
    let elsewhere : Option Address := some (.v4 0xcb007109#32)
    ((ofEntries entries).find? "corpNet").map (·.map (·.length)) = some [8, 32] ∧
      (ipAddress "corpNet").holds (c desk entries) = true ∧
      (ipAddress "corpNet").holds (c desk entries') = true ∧
      (ipAddress "corpNet").holds (c elsewhere entries) = false ∧
      (ipAddress "corpNet").holds (c elsewhere entries') = false ∧
      (ipAddress "corpNet").holds (c none entries) = false ∧
      ((ofEntries entries').find? "staff").isNone = true ∧
      (ipAddress "staff").holds (c desk entries') = false := by
  intro office router guests entries entries' c desk elsewhere
  obtain ⟨hfound, hholds⟩ := ipAddress_by_entries entries "corpNet"
  have hjoined : Regrouped entries entries' := by
    have hordered : Regrouped entries
        ([("CorpNet", [office]), ("corpnet", [router])] ++ [("guests", [guests])]) :=
      .reordered (.cons _ (.swap _ _ _))
    have hone : Regrouped (("CORPNET", [router, office]) :: [("guests", [guests])])
        ([("CorpNet", [office]), ("corpnet", [router])] ++ [("guests", [guests])]) :=
      .split (by decide +kernel) (.swap _ _ _)
    exact .trans hordered (.trans (.symm hone) (.reordered (.swap _ _ _)))
  have hnetworks : ∀ client entries, (c client entries).networks = (ofEntries entries).find? :=
    fun _ _ => rfl
  have hsame : ∀ client, (ipAddress "corpNet").holds (c client entries') =
      (ipAddress "corpNet").holds (c client entries) := fun client =>
    (hholds (c client entries) (hnetworks client entries)).2 entries' (c client entries') hjoined
      rfl (hnetworks client entries')
  have hpass : (ipAddress "corpNet").holds (c desk entries) = true := by decide +kernel
  have hfail : (ipAddress "corpNet").holds (c elsewhere entries) = false := by decide +kernel
  have hunknown : (ipAddress "corpNet").holds (c none entries) = false := by
    refine Bool.eq_false_iff.mpr fun hon => ?_
    obtain ⟨address, hclient, -⟩ := (hholds (c none entries) (hnetworks none entries)).1.mp hon
    cases hclient
  refine ⟨?_, hpass, (hsame desk).trans hpass, hfail, (hsame elsewhere).trans hfail, hunknown,
    by decide +kernel, by decide +kernel⟩
  rw [hfound]
  decide +kernel

end Condition
end FeatureGates
