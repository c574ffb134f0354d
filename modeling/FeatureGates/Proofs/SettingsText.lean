import FeatureGates.Proofs.Format
import FeatureGates.Settings.Json

/-!
Settings as they are written.

Settings are read from any object that has their fields, each under its name or left out for its
default, and the printer writes one of these objects.  So settings are read back from their text,
provided that the text can hold the timeout.  What was read from a text has such a timeout.
-/

namespace FeatureGates

namespace Json

theorem lt_of_natural? {bound n : Nat} {j : Json} (h : j.natural? bound = some n) : n < bound := by
  cases j with
  | number numeral => exact of_decide_eq_true (Option.filter_eq_some_iff.mp h).2
  | _ => cases h

/-- What holds of the default and of all that is read holds of an optional field. -/
theorem Record.optional?_holds {α : Type} {P : α → Prop} {r : Record} {position : Nat}
    {spellings : List String} {missing value : α} {read : Json → Option α}
    (h : r.optional? position spellings missing read = some value) (hmissing : P missing)
    (hread : ∀ j a, read j = some a → P a) : P value := by
  obtain ⟨field, -, hvalue⟩ := Option.bind_eq_some_iff.mp h
  cases field with
  | none => exact Option.some.inj hvalue ▸ hmissing
  | some j => exact hread j value hvalue

end Json

open Json (Field ObjectOf)

namespace CollisionPolicy

/-- A policy is written as its name, or as an object with the name as its only key. -/
inductive WrittenAs : CollisionPolicy → Json → Prop
  | name (policy : CollisionPolicy) : WrittenAs policy (Json.string policy.name)
  | key (policy : CollisionPolicy) : WrittenAs policy (.object [(some policy.name, .null)])

theorem ofName?_name (policy : CollisionPolicy) : ofName? policy.name = some policy := by
  cases policy <;> rfl

theorem WrittenAs.ofJson? {policy : CollisionPolicy} {j : Json} (h : policy.WrittenAs j) :
    ofJson? j = some policy := by
  cases h with
  | name | key => exact policy.ofName?_name

end CollisionPolicy

namespace Settings

variable {s : Settings} {j : Json}

/-- What is written for the default environment. -/
def environmentValue (environment : Option String) : Json :=
  (environment.map Json.string).getD .null

theorem nullOrText?_environmentValue (environment : Option String) :
    (environmentValue environment).nullOrText? = some environment := by
  cases environment <;> rfl

def fieldNames : List String :=
  ["defaultEnvironment", "trustForwardedFor", "flightTimeoutMs", "flightCollisionPolicy"]

/-- The objects that stand for settings. -/
inductive WrittenAs (s : Settings) : Json → Prop
  | mk {environment trust timeout policy : List (String × Json)} {j : Json}
    (henvironment : Field ["defaultEnvironment"]
      (s.defaultEnvironment = ({} : Settings).defaultEnvironment)
      (· = environmentValue s.defaultEnvironment) environment)
    (htrust : Field ["trustForwardedFor"]
      (s.trustForwardedFor = ({} : Settings).trustForwardedFor)
      (· = .bool s.trustForwardedFor) trust)
    (htimeout : Field ["flightTimeoutMs"] (s.flightTimeout = ({} : Settings).flightTimeout)
      (· = .nat s.flightTimeout) timeout)
    (hpolicy : Field ["flightCollisionPolicy"]
      (s.collisionPolicy = ({} : Settings).collisionPolicy)
      s.collisionPolicy.WrittenAs policy)
    (hj : ObjectOf fieldNames (environment ++ trust ++ timeout ++ policy) j) : WrittenAs s j

theorem ofJson?_of_writtenAs (h : s.WrittenAs j) (hbound : s.flightTimeout < timeoutBound) :
    ofJson? j = some s := by
  obtain ⟨henvironment, htrust, htimeout, hpolicy, hj⟩ := h
  obtain ⟨all, hrecord, hfilter⟩ := hj.record?
  have hallE := hfilter ["defaultEnvironment"] (by decide)
  have hallT := hfilter ["trustForwardedFor"] (by decide)
  have hallF := hfilter ["flightTimeoutMs"] (by decide)
  have hallC := hfilter ["flightCollisionPolicy"] (by decide)
  simp only [List.filter_append] at hallE hallT hallF hallC
  rw [henvironment.filter_self, htrust.filter_other (by decide), htimeout.filter_other (by decide),
    hpolicy.filter_other (by decide)] at hallE
  rw [henvironment.filter_other (by decide), htrust.filter_self, htimeout.filter_other (by decide),
    hpolicy.filter_other (by decide)] at hallT
  rw [henvironment.filter_other (by decide), htrust.filter_other (by decide), htimeout.filter_self,
    hpolicy.filter_other (by decide)] at hallF
  rw [henvironment.filter_other (by decide), htrust.filter_other (by decide),
    htimeout.filter_other (by decide), hpolicy.filter_self] at hallC
  simp only [List.append_nil, List.nil_append] at hallE hallT hallF hallC
  have hreadE := henvironment.optional? 0 _ Json.nullOrText? hallE Eq.symm
    fun _ _ _ hvalue => hvalue ▸ nullOrText?_environmentValue _
  have hreadT := htrust.optional? 1 _ Json.bool? hallT Eq.symm fun _ _ _ hvalue => hvalue ▸ rfl
  have hreadF := htimeout.optional? 2 _ (Json.natural? timeoutBound) hallF Eq.symm
    fun _ _ _ hvalue => hvalue ▸ Json.natural?_nat hbound
  have hreadC := hpolicy.optional? 3 _ CollisionPolicy.ofJson? hallC Eq.symm
    fun _ _ _ hvalue => hvalue.ofJson?
  rw [ofJson?, hrecord]
  simp [Json.Record.fits, hreadE, hreadT, hreadF, hreadC]

/-- The printer leaves nothing out. -/
theorem writtenAs_toJson (s : Settings) : s.WrittenAs s.toJson :=
  .mk (.written _ List.mem_cons_self rfl) (.written _ List.mem_cons_self rfl)
    (.written _ List.mem_cons_self rfl) (.written _ List.mem_cons_self (.name _))
    (.mk _ [] nofun (.refl _))

theorem plain_toJson (s : Settings) : s.toJson.Plain := by
  obtain ⟨environment, trust, timeout, policy⟩ := s
  cases environment with
  | none => exact ⟨rfl, trivial, rfl, trivial, rfl, ⟨timeout, rfl⟩, rfl, rfl, trivial⟩
  | some environment => exact ⟨rfl, rfl, rfl, trivial, rfl, ⟨timeout, rfl⟩, rfl, rfl, trivial⟩

theorem parse?_of_writtenAs {text : String} (h : s.WrittenAs j) (htext : j.WrittenAs text)
    (hbound : s.flightTimeout < timeoutBound) : parse? text = some s := by
  rw [parse?, Json.parse?_of_writtenAs htext]
  exact ofJson?_of_writtenAs h hbound

theorem flightTimeout_lt (h : ofJson? j = some s) : s.flightTimeout < timeoutBound := by
  simp only [ofJson?, Option.bind_eq_bind, Option.bind_eq_some_iff] at h
  obtain ⟨r, -, -, -, environment, -, trust, -, timeout, htimeout, policy, -, heq⟩ := h
  obtain rfl := Option.some.inj heq
  have hlt : timeout < timeoutBound :=
    Json.Record.optional?_holds (P := (· < timeoutBound)) htimeout (by decide) fun _ _ =>
      Json.lt_of_natural?
  exact hlt

theorem flightTimeout_lt_of_parse? {text : String} (h : parse? text = some s) :
    s.flightTimeout < timeoutBound := by
  obtain ⟨j, -, hj⟩ := Option.bind_eq_some_iff.mp h
  exact flightTimeout_lt hj

/-- Settings whose timeout fits are read back from what is printed for them, and from all other
texts that stand for them: in any spelling, with the fields in any order and with defaults left out.
All settings that come from a text are among these. -/
theorem read_back :
    (∀ s : Settings, s.flightTimeout ≤ 18446744073709551615 →
      parse? s.render = some s ∧
      ∀ j text, s.WrittenAs j → j.WrittenAs text → parse? text = some s) ∧
    ∀ text s, parse? text = some s → parse? s.render = some s := by
  have hrender : ∀ s : Settings, s.flightTimeout < timeoutBound → parse? s.render = some s :=
    fun s hbound => parse?_of_writtenAs s.writtenAs_toJson s.plain_toJson.writtenAs_render hbound
  refine ⟨fun s hle => ?_, fun text s h => hrender s (flightTimeout_lt_of_parse? h)⟩
  have hbound : s.flightTimeout < timeoutBound := Nat.lt_succ_of_le hle
  exact ⟨hrender s hbound, fun j text h htext => parse?_of_writtenAs h htext hbound⟩

/-- The longest timeout, and a name that has to be escaped; and a text without any field. -/
theorem read_back_longest :
    let s : Settings :=
      ⟨some "Pr\u00F6d \"\\\n\x01\u2603", false, 18446744073709551615, .lastWriterWins⟩
    s.flightTimeout ≤ 18446744073709551615 ∧ parse? s.render = some s ∧
      parse? "\x7b\x7d" = some {} ∧ parse? ({} : Settings).render = some {} := by
  intro s
  have hempty : ({} : Settings).WrittenAs (.object []) :=
    .mk (.omitted rfl) (.omitted rfl) (.omitted rfl) (.omitted rfl) (.mk [] [] nofun (.refl _))
  have htext : (Json.object []).WrittenAs "\x7b\x7d" :=
    Json.Plain.writtenAs_render (j := .object []) trivial
  have hparse : parse? "\x7b\x7d" = some {} := (read_back.1 {} (by decide)).2 _ _ hempty htext
  exact ⟨Nat.le_refl _, (read_back.1 s (Nat.le_refl _)).1, hparse, read_back.2 _ _ hparse⟩

end Settings
end FeatureGates
