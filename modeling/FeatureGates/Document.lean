import FeatureGates.Filter

/-!
Gate documents: gates that contain further gates, in the order in which they were written.  Names
may still be invalid or repeated here.
-/

namespace FeatureGates

structure Definition where
  /-- For presentation only; no decision depends on it. -/
  group : Option String := none
  filters : List Filter := []
  children : List (String × Definition) := []

structure Document where
  gates : List (String × Definition) := []

mutual
/-- How many levels of gates a definition spans, its own included. -/
def Definition.height : Definition → Nat
  | ⟨_, _, children⟩ => Definition.heights children + 1

/-- How many levels of gates a list of siblings spans. -/
def Definition.heights : List (String × Definition) → Nat
  | [] => 0
  | (_, definition) :: rest => max definition.height (Definition.heights rest)
end

end FeatureGates
