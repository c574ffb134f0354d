import FeatureGates.Proofs.Conflicts
import FeatureGates.Proofs.Format
import FeatureGates.Proofs.Sites

/-!
What can be written, and what it is read as.

Every document whose rollouts fit into 32 bits is written by some text, and all texts that write a
document are read as that document.  The one way to go wrong is to write a field twice.
-/

namespace FeatureGates

open Json (Field ObjectOf)

namespace Json

theorem membersPlain_map {members : List (String × Json)} (h : ∀ m ∈ members, m.2.Plain) :
    MembersPlain (members.map fun m => (some m.1, m.2)) := by
  induction members with
  | nil => trivial
  | cons m rest ih =>
    rw [List.forall_mem_cons] at h
    exact ⟨rfl, h.1, ih h.2⟩

theorem membersDepth_map_le {members : List (String × Json)} {n : Nat}
    (h : ∀ m ∈ members, m.2.depth ≤ n) :
    membersDepth (members.map fun m => (some m.1, m.2)) ≤ n := by
  induction members with
  | nil => exact Nat.zero_le n
  | cons m rest ih =>
    rw [List.forall_mem_cons] at h
    exact Nat.max_le.mpr ⟨h.1, ih h.2⟩

theorem plain_texts (l : List String) : (texts l).Plain := by
  show ItemsPlain (l.map string)
  induction l with
  | nil => trivial
  | cons s rest ih => exact ⟨rfl, ih⟩

theorem depth_texts_le (l : List String) : (texts l).depth ≤ 1 := by
  show itemsDepth (l.map string) + 1 ≤ 1
  induction l with
  | nil => exact Nat.le_refl 1
  | cons s rest ih =>
    rw [List.map_cons, itemsDepth, string, depth, Nat.zero_max]
    exact ih

/-- Whatever its members are, there is an object of them. -/
theorem exists_objectOf (known : List String) {members : List (String × Json)} {n : Nat}
    (h : ∀ m ∈ members, m.2.Plain ∧ m.2.depth ≤ n) :
    ∃ j, ObjectOf known members j ∧ j.Plain ∧ j.depth ≤ n + 1 := by
  have hobject : ObjectOf known members (.object (members.map fun m => (some m.1, m.2))) :=
    .mk members [] nofun (by simp)
  exact ⟨_, hobject, membersPlain_map fun m hm => (h m hm).1,
    Nat.succ_le_succ (membersDepth_map_le fun m hm => (h m hm).2)⟩

end Json

/-- A rollout fits into 32 bits. -/
def Filter.Writable (f : Filter) : Prop := ∀ exposure ∈ f.exposure?, exposure < UInt32.size

theorem Filter.exists_settings {f : Filter} (hf : f.Writable) : ∃ settings, f.Settings settings ∧
    ∀ m ∈ settings, m.2.Plain ∧ m.2.depth ≤ 1 := by
  have htexts : ∀ l, (Json.texts l).Plain ∧ (Json.texts l).depth ≤ 1 := fun l =>
    ⟨Json.plain_texts l, Json.depth_texts_le l⟩
  have hstring : ∀ s, (Json.string s).Plain ∧ (Json.string s).depth ≤ 1 := fun s =>
    ⟨rfl, Nat.zero_le 1⟩
  match f with
  | .condition (.campaign enabled disabled) =>
    refine ⟨_, .campaign (.written _ List.mem_cons_self rfl) (.written _ List.mem_cons_self rfl), ?_⟩
    simp [htexts]
  | .condition (.environment environments) =>
    refine ⟨_, .environment (.written _ List.mem_cons_self (.list environments)), ?_⟩
    simp [htexts]
  | .condition (.ipAddress allowedRange) =>
    refine ⟨_, .ipAddress (.written _ List.mem_cons_self rfl), ?_⟩
    simp [hstring]
  | .parent gate =>
    refine ⟨_, .parent (.written _ List.mem_cons_self rfl), ?_⟩
    simp [hstring]
  | .condition (.rollout exposure) =>
    refine ⟨_, .rollout (hf exposure rfl) (.written _ List.mem_cons_self rfl), ?_⟩
    have hnat : (Json.nat exposure).Plain ∧ (Json.nat exposure).depth ≤ 1 :=
      ⟨⟨exposure, rfl⟩, Nat.zero_le 1⟩
    simp [hnat]

theorem Filter.exists_writtenAs {f : Filter} (hf : f.Writable) :
    ∃ j, f.WrittenAs j ∧ j.Plain ∧ j.depth ≤ 2 := by
  obtain ⟨settings, hsettings, hall⟩ := Filter.exists_settings hf
  have hmembers : ∀ m ∈ ("kind", Json.string f.kind.name) :: settings,
      m.2.Plain ∧ m.2.depth ≤ 1 := List.forall_mem_cons.mpr ⟨⟨rfl, Nat.zero_le 1⟩, hall⟩
  obtain ⟨j, hj, hplain, hdepth⟩ := Json.exists_objectOf ("kind" :: f.kind.spellings) hmembers
  exact ⟨j, ⟨settings, hsettings, hj⟩, hplain, hdepth⟩

theorem Definition.exists_group (group : Option String) :
    ∃ j, Definition.Group group j ∧ j.Plain ∧ j.depth = 0 := by
  cases group with
  | none => exact ⟨.null, .none, trivial, rfl⟩
  | some s => exact ⟨Json.string s, .some s, rfl, rfl⟩

theorem Definition.exists_filters {filters : List Filter} (h : ∀ f ∈ filters, f.Writable) :
    ∃ j, Definition.Filters filters j ∧ j.Plain ∧ j.depth ≤ 3 := by
  obtain ⟨items, hitems, hplain, hdepth⟩ : ∃ items, List.Forall₂ Filter.WrittenAs filters items ∧
      Json.ItemsPlain items ∧ Json.itemsDepth items ≤ 2 := by
    induction filters with
    | nil => exact ⟨[], .nil, trivial, Nat.zero_le 2⟩
    | cons f rest ih =>
      rw [List.forall_mem_cons] at h
      obtain ⟨j, hj, hplain, hdepth⟩ := Filter.exists_writtenAs h.1
      obtain ⟨items, hitems, hplains, hdepths⟩ := ih h.2
      exact ⟨j :: items, .cons hj hitems, ⟨hplain, hplains⟩, Nat.max_le.mpr ⟨hdepth, hdepths⟩⟩
  exact ⟨.array items, ⟨items, rfl, hitems⟩, hplain, Nat.succ_le_succ hdepth⟩

theorem Siblings.exists_members {siblings : List (String × Definition)} {around : List String}
    (h : ∀ x ∈ Definition.sitesBelow around siblings, ∀ f ∈ x.definition.filters, f.Writable) :
    ∃ members, Siblings siblings members ∧ Json.MembersPlain members ∧
      Json.membersDepth members ≤ 2 * Definition.heights siblings + 2 := by
  induction siblings using Definition.siblings_induction generalizing around with
  | hnil => exact ⟨[], .nil, trivial, Nat.zero_le _⟩
  | hcons name d rest ihd ihrest =>
    rw [Definition.sitesBelow_cons, List.forall_mem_cons, List.forall_mem_append] at h
    obtain ⟨hfilters, hinside, hafter⟩ := h
    obtain ⟨group, filters, children⟩ := d
    obtain ⟨g, hg, hgPlain, hgDepth⟩ := Definition.exists_group group
    obtain ⟨f, hf, hfPlain, hfDepth⟩ := Definition.exists_filters hfilters
    obtain ⟨childMembers, hchildren, hchildrenPlain, hchildrenDepth⟩ := ihd hinside
    obtain ⟨restMembers, hrest, hrestPlain, hrestDepth⟩ := ihrest hafter
    have hcDepth : (Json.object childMembers).depth ≤ 2 * Definition.heights children + 3 :=
      Nat.succ_le_succ hchildrenDepth
    have hfields : ∀ m ∈ [("group", g)] ++ [("filters", f)] ++
        [("children", Json.object childMembers)],
        m.2.Plain ∧ m.2.depth ≤ 2 * Definition.heights children + 3 := by
      simp only [List.cons_append, List.nil_append, List.forall_mem_cons]
      exact ⟨⟨hgPlain, by omega⟩, ⟨hfPlain, by omega⟩, ⟨hchildrenPlain, hcDepth⟩,
        List.forall_mem_nil _⟩
    obtain ⟨j, hj, hplain, hdepth⟩ :=
      Json.exists_objectOf ["group", "groupName", "filters", "children"] hfields
    refine ⟨(some name, j) :: restMembers, .cons (.written _ (by simp) hg) (.written _ (by simp) hf)
      hchildren (.written _ (by simp) rfl) hj hrest, ⟨rfl, hplain, hrestPlain⟩, ?_⟩
    rw [Json.membersDepth, Definition.heights_cons]
    show max _ _ ≤ 2 * max (Definition.heights children + 1) _ + 2
    omega

theorem Document.exists_writtenAs {d : Document}
    (h : ∀ x ∈ d.sites, ∀ f ∈ x.definition.filters, f.Writable) :
    ∃ j, d.WrittenAs j ∧ j.Plain ∧ j.depth ≤ 2 * Definition.heights d.gates + 4 := by
  obtain ⟨members, hsiblings, hplain, hdepth⟩ := Siblings.exists_members h
  have hfield : ∀ m ∈ [("gates", Json.object members)],
      m.2.Plain ∧ m.2.depth ≤ 2 * Definition.heights d.gates + 3 :=
    List.forall_mem_singleton.mpr ⟨hplain, Nat.succ_le_succ hdepth⟩
  obtain ⟨j, hj, hresult⟩ := Json.exists_objectOf ["gates"] hfield
  exact ⟨j, ⟨members, _, hsiblings, .written _ List.mem_cons_self rfl, hj⟩, hresult⟩

/-! ## The format -/

namespace Document

/-- Whatever text writes a document within the limit of nesting is read as that document, with its
siblings in their order and with the names that are repeated.  Every document whose rollouts fit
into 32 bits is written by some text.  A text in which a gate names its group twice, or a parent
filter its gate, is malformed. -/
theorem parse?_writings :
    (∀ (d : Document) (j : Json) (text : String), d.WrittenAs j → j.depth ≤ Json.nestingLimit →
      j.WrittenAs text → parse? text = some d) ∧
    (∀ d : Document, (∀ x ∈ d.sites, ∀ f ∈ x.definition.filters, f.Writable) →
      ∃ j text, d.WrittenAs j ∧ j.depth ≤ 2 * Definition.heights d.gates + 4 ∧
        j.WrittenAs text) ∧
    ∀ (text : String) (j : Json), Json.parse? text = some j → Conflicting j →
      parse? text = none ∧ (Hierarchy.load text).answer = .error .malformed := by
  refine ⟨fun d j text hd hdepth htext => ?_, fun d hd => ?_, fun text j htext hj => ?_⟩
  · rw [parse?, Json.parse?_of_writtenAs htext]
    exact ofJson?_of_writtenAs hd hdepth
  · obtain ⟨j, hj, hplain, hdepth⟩ := exists_writtenAs hd
    exact ⟨j, j.render, hj, hdepth, hplain.writtenAs_render⟩
  · have hnone : parse? text = none := by
      rw [parse?, htext]
      exact hj.ofJson?
    refine ⟨hnone, ?_⟩
    rw [Hierarchy.load, hnone]
    rfl

def sample : Document where
  gates := [("Été", { group := some "a\tb", filters := [.parent "x",
    .condition (.environment ["test"]), .condition (.rollout 4294967295)] }), ("Été", {})]

def sampleJson : Json :=
  .object [(some "note", .string "1"), (some "gates", .object
    [(some "Été", .object [
        (some "filters", .array [
          .object [(some "parent", .string "x"), (some "kind", .string "parent")],
          .object [(some "environments", .string "test"), (some "kind", .string "environment"),
            (some "gate", .string "y")],
          .object [(some "kind", .string "rollout"), (some "exposurePercentage", .nat 4294967295)]]),
        (some "groupName", .string "a\tb")]),
      (some "Été", .object [(some "group", .null), (some "children", .object [])])])]

def conflictingJson : Json :=
  .object [(some "gates", .object [(some "x", .object [(some "group", .string "a"),
    (some "groupName", .null)])])]

theorem sample_writtenAs : sample.WrittenAs sampleJson := by
  have hparent : Filter.WrittenAs (.parent "x")
      (.object [(some "parent", .string "x"), (some "kind", .string "parent")]) :=
    ⟨_, .parent (.written "parent" (by simp) rfl),
      .mk [("parent", .string "x"), ("kind", .string "parent")] [] nofun
        (.swap _ _ _)⟩
  have henvironment : Filter.WrittenAs (.condition (.environment ["test"]))
      (.object [(some "environments", .string "test"), (some "kind", .string "environment"),
        (some "gate", .string "y")]) :=
    ⟨_, .environment (.written "environments" (by simp) (.single "test")),
      .mk [("environments", .string "test"), ("kind", .string "environment"),
        ("gate", .string "y")] [("gate", "y")] (by decide) (.swap _ _ _)⟩
  have hrollout : Filter.WrittenAs (.condition (.rollout 4294967295))
      (.object [(some "kind", .string "rollout"),
        (some "exposurePercentage", .nat 4294967295)]) :=
    ⟨_, .rollout (by decide) (.written "exposurePercentage" (by simp) rfl),
      .mk [("kind", .string "rollout"), ("exposurePercentage", .nat 4294967295)]
        [] nofun (.refl _)⟩
  refine ⟨_, _, .cons (.written "groupName" (by simp) (.some "a\tb"))
    (.written "filters" (by simp)
      ⟨_, rfl, .cons hparent (.cons henvironment (.cons hrollout .nil))⟩) .nil
    (.omitted rfl) (.mk [("filters", _), ("groupName", _)] [] nofun
      (.swap _ _ _))
    (.cons (.written "group" (by simp) .none) (.omitted rfl) .nil
      (.written "children" (by simp) rfl) (.mk [("group", _), ("children", _)] [] nofun
        (.refl _)) .nil),
    .written "gates" (by simp) rfl,
    .mk [("note", .string "1"), ("gates", _)] [("note", "1")] (by decide)
      (.swap _ _ _)⟩

theorem parse?_writings_sample :
    sampleJson.render = "\x7b\"note\":\"1\",\"gates\":\x7b\"Été\":\x7b\"filters\":[" ++
      "\x7b\"parent\":\"x\",\"kind\":\"parent\"\x7d," ++
      "\x7b\"environments\":\"test\",\"kind\":\"environment\",\"gate\":\"y\"\x7d," ++
      "\x7b\"kind\":\"rollout\",\"exposurePercentage\":4294967295\x7d]," ++
      "\"groupName\":\"a\\tb\"\x7d,\"Été\":\x7b\"group\":null,\"children\":\x7b\x7d\x7d\x7d\x7d" ∧
    parse? sampleJson.render = some sample ∧
    (∃ j text, sample.WrittenAs j ∧ j.depth ≤ 6 ∧ j.WrittenAs text) ∧
    conflictingJson.render =
      "\x7b\"gates\":\x7b\"x\":\x7b\"group\":\"a\",\"groupName\":null\x7d\x7d\x7d" ∧
    parse? conflictingJson.render = none := by
  obtain ⟨hreads, hwrites, hconflicts⟩ := parse?_writings
  have hplain : sampleJson.Plain := by
    simp [sampleJson, Json.Plain, Json.MembersPlain, Json.ItemsPlain, Json.string, Json.nat]
  have hplain' : conflictingJson.Plain := by
    simp [conflictingJson, Json.Plain, Json.MembersPlain, Json.string]
  have hwritable : ∀ x ∈ sample.sites, ∀ f ∈ x.definition.filters, f.Writable := by
    show ∀ x ∈ sample.sites, ∀ f ∈ x.definition.filters, ∀ exposure ∈ f.exposure?, exposure < UInt32.size
    decide
  refine ⟨by decide +kernel, hreads _ _ _ sample_writtenAs (by decide) hplain.writtenAs_render,
    hwrites sample hwritable, by decide +kernel, ?_⟩
  have htext := Json.parse?_of_writtenAs hplain'.writtenAs_render
  have hgate : GateIn conflictingJson _ :=
    .top (.named List.mem_cons_self List.mem_cons_self) List.mem_cons_self
  exact (hconflicts _ _ htext (.group hgate
    ⟨_, _, _, rfl, List.mem_cons_self, List.mem_cons_of_mem _ List.mem_cons_self⟩)).1

end Document
end FeatureGates
