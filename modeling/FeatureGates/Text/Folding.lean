import FeatureGates.Text.Lowercase

/-!
Names without regard to case.  A name is looked up under its folded form, the lowercase text; two
names are the same when their folded forms are.
-/

namespace FeatureGates
namespace Text

/-- The form under which a name is stored and sought. -/
def fold (name : String) : String := lowercase name

/-- Equality up to the case of the 26 ASCII letters; every other character must be the same. -/
def sameAsciiLetters : List Char → List Char → Bool
  | [], [] => true
  | a :: as, b :: bs => a.toLower == b.toLower && sameAsciiLetters as bs
  | _, _ => false

/-- Equality up to case.  Two ASCII texts are compared letter by letter without being lowered
first. -/
def sameName (a b : String) : Bool :=
  if isAscii a && isAscii b then sameAsciiLetters a.toList b.toList else fold a == fold b

def listsName (names : List String) (name : String) : Bool :=
  names.any (sameName · name)

/-- Drops each name that was met before under some spelling; `met` holds the folded forms. -/
def distinctFrom (met : List String) : List String → List String
  | [] => []
  | name :: rest =>
    if met.contains (fold name) then distinctFrom met rest
    else name :: distinctFrom (fold name :: met) rest

/-- The first spelling of every name, in the order of first occurrence. -/
def distinct (names : List String) : List String := distinctFrom [] names

theorem sameAsciiLetters_iff (as bs : List Char) :
    sameAsciiLetters as bs ↔ as.map Char.toLower = bs.map Char.toLower := by
  induction as generalizing bs with
  | nil => cases bs <;> simp [sameAsciiLetters]
  | cons a as ih => cases bs <;> simp [sameAsciiLetters, ih]

end Text
end FeatureGates
