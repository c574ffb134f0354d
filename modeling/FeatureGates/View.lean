import FeatureGates.Hierarchy

/-!
Views: the part of a hierarchy that an evaluation can see.  Ordinarily that is all of it; a view may
also hide gates from lookups by number and from lookups by name.
-/

namespace FeatureGates

structure View where
  gate? : Nat → Option Gate
  /-- The gate found by a name, ignoring case. -/
  named? : String → Option Gate
  /-- Every visible gate has a number below this. -/
  size : Nat

/-- All of a hierarchy. -/
def Hierarchy.view (h : Hierarchy) : View := ⟨h.gate?, h.named?, h.size⟩

namespace View

/-- Hides the numbers `ids` from lookups by number, and gates with exactly the names `names` from
lookups by name. -/
def hide (v : View) (ids : List Nat) (names : List String) : View where
  gate? id := if ids.contains id then none else v.gate? id
  named? name := (v.named? name).filter fun g => !names.contains g.name
  size := v.size

/-- The gates that lookups by number find, in the order of their numbers. -/
def gates (v : View) : List Gate := (List.range v.size).filterMap v.gate?

end View
end FeatureGates
