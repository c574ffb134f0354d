import FeatureGates.Text.Lowercase.Mapping
import FeatureGates.Text.Lowercase.Cased
import FeatureGates.Text.Lowercase.Ignorable

/-!
Lowercase of whole texts.  Every character is lowered by itself except capital sigma, whose form
depends on whether it ends a word.
-/

namespace FeatureGates
namespace Text

/-- A cased letter comes first once the characters that case ignores are passed over. -/
def meetsCased (cs : List Char) : Bool :=
  ((cs.dropWhile isCaseIgnorable).head?.map isCased).getD false

/-- The two forms of small sigma: a letter before it and none after it make it final. -/
def lowerSigma (before after : List Char) : Char :=
  if meetsCased before && !meetsCased after then 'ς' else 'σ'

/-- Lowercase of the characters that follow `before`, which holds those already passed, nearest
first. -/
def lowerFrom (before : List Char) : List Char → List Char
  | [] => []
  | c :: rest =>
    (if c = 'Σ' then [lowerSigma before rest] else lowerChar c) ++ lowerFrom (c :: before) rest

def lowercase (s : String) : String := String.ofList (lowerFrom [] s.toList)

def isAscii (s : String) : Bool := s.toList.all (·.toNat < 0x80)

/-- Without capital sigma there is no context: a text is lowered one character at a time. -/
theorem lowerFrom_eq_map {f : Char → Char} (before : List Char) {cs : List Char}
    (h : ∀ c ∈ cs, c ≠ 'Σ' ∧ lowerChar c = [f c]) : lowerFrom before cs = cs.map f := by
  induction cs generalizing before with
  | nil => rfl
  | cons c rest ih =>
    obtain ⟨⟨hne, hlower⟩, hrest⟩ := List.forall_mem_cons.mp h
    rw [lowerFrom, if_neg hne, hlower, ih _ hrest, List.map_cons, List.singleton_append]

theorem lowerFrom_of_ascii (before : List Char) {cs : List Char}
    (h : ∀ c ∈ cs, c.toNat < 0x80) : lowerFrom before cs = cs.map Char.toLower :=
  lowerFrom_eq_map before fun c hc =>
    ⟨fun e => absurd (h c hc) (by rw [e]; decide), lowerChar_of_ascii (h c hc)⟩

end Text
end FeatureGates
