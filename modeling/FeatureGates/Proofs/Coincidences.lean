import FeatureGates.Proofs.ByteOrder
import FeatureGates.Proofs.Exposure
import FeatureGates.Text.Pieces

/-!
Rollouts that are decided by the same bytes.

What is digested for a gate and a customer is the folded name, a point and the id.  Names and ids
may have points in them, so the point does not tell where the name ends: a text that is read as two
different pairs has its point at two places, and what stands between the places belongs to the name
in the one reading and to the id in the other.
-/

namespace FeatureGates

theorem toList_pointed (a b : String) : (a ++ "." ++ b).toList = a.toList ++ '.' :: b.toList := by
  rw [String.toList_append, String.toList_append, List.append_assoc]
  rfl

theorem eq_pointed_iff {text a b : String} :
    text = a ++ "." ++ b ↔ text.toList = a.toList ++ '.' :: b.toList := by
  rw [← String.toList_inj, toList_pointed]

/-- A text, split at two places where it has a point. -/
theorem pointed_eq_iff {a b a' b' : String} :
    a ++ "." ++ b = a' ++ "." ++ b' ↔ (a = a' ∧ b = b') ∨
      (∃ r, a' = a ++ "." ++ r ∧ b = r ++ "." ++ b') ∨
      ∃ r, a = a' ++ "." ++ r ∧ b' = r ++ "." ++ b := by
  constructor
  · intro heq
    have hlists := eq_pointed_iff.mp heq
    rw [toList_pointed] at hlists
    rcases Text.append_cons_eq_append_cons_iff.mp hlists with ⟨ha, hb⟩ | ⟨r, ha, hb⟩ | ⟨r, ha, hb⟩
    · exact Or.inl ⟨String.toList_inj.mp ha, String.toList_inj.mp hb⟩
    all_goals rw [← String.toList_ofList (l := r)] at ha hb
    · exact Or.inr (Or.inl ⟨String.ofList r, eq_pointed_iff.mpr ha, eq_pointed_iff.mpr hb⟩)
    · exact Or.inr (Or.inr ⟨String.ofList r, eq_pointed_iff.mpr ha, eq_pointed_iff.mpr hb⟩)
  · rintro (⟨rfl, rfl⟩ | ⟨r, rfl, rfl⟩ | ⟨r, rfl, rfl⟩)
    · rfl
    · simp only [String.append_assoc]
    · simp only [String.append_assoc]

theorem prefix_iff_exists {short long : String} :
    short.toList <+: long.toList ↔ ∃ r, long = short ++ r := by
  constructor
  · rintro ⟨r, hr⟩
    refine ⟨String.ofList r, ?_⟩
    rw [← String.toList_inj, String.toList_append, String.toList_ofList, hr]
  · rintro ⟨r, rfl⟩
    rw [String.toList_append]
    exact List.prefix_append _ _

namespace Rollout

/-- The bytes that are digested: those of the folded name, of a point and of the id, one after
another. -/
def input (gate customer : String) : List UInt8 :=
  Text.bytes (Text.fold gate) ++ Text.bytes "." ++ Text.bytes customer

theorem bytes_key (gate customer : String) :
    Text.bytes (key gate customer) = input gate customer := by
  rw [key, Text.bytes_append, Text.bytes_append, input]

theorem bucket_eq (gate customer : String) :
    bucket gate customer = (bucketOf (leading (Sha1.digest (input gate customer)))).toNat := by
  rw [← bytes_key]
  rfl

theorem reaches_eq (gate customer : String) (exposure : Nat) :
    reaches gate (some customer) exposure =
      exposes exposure (leading (Sha1.digest (input gate customer))) := by
  rw [reaches_some, ← bytes_key]
  rfl

theorem input_eq_iff {gate gate' customer customer' : String} :
    input gate customer = input gate' customer' ↔
      (Text.fold gate = Text.fold gate' ∧ customer = customer') ∨
      (∃ r, Text.fold gate' = Text.fold gate ++ "." ++ r ∧ customer = r ++ "." ++ customer') ∨
      ∃ r, Text.fold gate = Text.fold gate' ++ "." ++ r ∧ customer' = r ++ "." ++ customer := by
  rw [← bytes_key, ← bytes_key, Text.bytes_inj]
  exact pointed_eq_iff

/-- Where names differ, it depends on the names alone whether some customers have the same bytes:
the one name has to go on after the other and a point. -/
theorem exists_input_eq_iff {gate gate' : String} (hne : Text.fold gate ≠ Text.fold gate') :
    (∃ customer customer', input gate customer = input gate' customer') ↔
      (Text.fold gate ++ ".").toList <+: (Text.fold gate').toList ∨
        (Text.fold gate' ++ ".").toList <+: (Text.fold gate).toList := by
  simp only [prefix_iff_exists]
  constructor
  · rintro ⟨customer, customer', hsame⟩
    rcases input_eq_iff.mp hsame with ⟨hfold, -⟩ | ⟨r, hr, -⟩ | ⟨r, hr, -⟩
    · exact absurd hfold hne
    · exact Or.inl ⟨r, hr⟩
    · exact Or.inr ⟨r, hr⟩
  · rintro (⟨r, hr⟩ | ⟨r, hr⟩)
    · exact ⟨r ++ "." ++ "", "", input_eq_iff.mpr (Or.inr (Or.inl ⟨r, hr, rfl⟩))⟩
    · exact ⟨"", r ++ "." ++ "", input_eq_iff.mpr (Or.inr (Or.inr ⟨r, hr, rfl⟩))⟩

/-- Two pairs of a gate and a customer have the same bytes only if they are the same pair up to the
case of the name, or if one name is the other with a point and more after it, and this more stands
before the point in the other's id.  Pairs with the same bytes share their bucket and are let in or
kept out together. -/
theorem inputs_coincide (gate gate' : String) :
    (∀ customer, bucket gate customer =
      (bucketOf (leading (Sha1.digest (input gate customer)))).toNat) ∧
    (∀ customer customer', input gate customer = input gate' customer' ↔
      (Text.fold gate = Text.fold gate' ∧ customer = customer') ∨
      (∃ r, Text.fold gate' = Text.fold gate ++ "." ++ r ∧ customer = r ++ "." ++ customer') ∨
      ∃ r, Text.fold gate = Text.fold gate' ++ "." ++ r ∧ customer' = r ++ "." ++ customer) ∧
    (Text.fold gate ≠ Text.fold gate' →
      ((∃ customer customer', input gate customer = input gate' customer') ↔
        (Text.fold gate ++ ".").toList <+: (Text.fold gate').toList ∨
          (Text.fold gate' ++ ".").toList <+: (Text.fold gate).toList)) ∧
    ∀ customer customer', input gate customer = input gate' customer' →
      bucket gate customer = bucket gate' customer' ∧
        ∀ exposure, reaches gate (some customer) exposure =
          reaches gate' (some customer') exposure := by
  refine ⟨bucket_eq gate, fun _ _ => input_eq_iff, exists_input_eq_iff,
    fun customer customer' hsame => ⟨?_, fun exposure => ?_⟩⟩
  · rw [bucket_eq, bucket_eq, hsame]
  · rw [reaches_eq, reaches_eq, hsame]

theorem inputs_coincide_dotted :
    Text.fold "Cart" ≠ Text.fold "cart.NEW" ∧
      input "Cart" "new.ann" = input "cart.NEW" "ann" ∧
      bucket "Cart" "new.ann" = bucket "cart.NEW" "ann" ∧
      ∀ customer customer', input "cart" customer ≠ input "cart-new" customer' := by
  obtain ⟨-, hsame, -, hbucket⟩ := inputs_coincide "Cart" "cart.NEW"
  obtain ⟨-, -, hnames, -⟩ := inputs_coincide "cart" "cart-new"
  have hinput : input "Cart" "new.ann" = input "cart.NEW" "ann" :=
    (hsame "new.ann" "ann").mpr (Or.inr (Or.inl ⟨"new", by decide +kernel, by decide +kernel⟩))
  refine ⟨by decide +kernel, hinput, (hbucket _ _ hinput).1, fun customer customer' heq => ?_⟩
  have hprefix := (hnames (by decide +kernel)).mp ⟨customer, customer', heq⟩
  exact absurd hprefix (by decide +kernel)

end Rollout
end FeatureGates
