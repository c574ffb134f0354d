/-!
White space and trimming.  A character is blank when it has the Unicode property White_Space;
trimming removes blanks from both ends of a text and nothing from its inside.
-/

namespace FeatureGates
namespace Text

/-- The 25 characters with the property White_Space, written as ranges of code points. -/
def blankRanges : List (Nat × Nat) :=
  [(0x09, 0x0D), (0x20, 0x20), (0x85, 0x85), (0xA0, 0xA0), (0x1680, 0x1680),
   (0x2000, 0x200A), (0x2028, 0x2029), (0x202F, 0x202F), (0x205F, 0x205F), (0x3000, 0x3000)]

def isBlank (c : Char) : Bool :=
  blankRanges.any fun (first, last) => first ≤ c.toNat && c.toNat ≤ last

/-- The characters left when the blanks at both ends are dropped. -/
def trimmed (cs : List Char) : List Char :=
  ((cs.dropWhile isBlank).reverse.dropWhile isBlank).reverse

/-- The trimmed text, or nothing when only blanks were there. -/
def nonBlank? (s : String) : Option String :=
  match trimmed s.toList with
  | [] => none
  | cs => some (String.ofList cs)

end Text
end FeatureGates
