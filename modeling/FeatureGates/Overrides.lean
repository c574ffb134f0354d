import FeatureGates.Decision
import FeatureGates.Text.Pieces

/-!
Overrides: gates that the query of a request turns on, turns off or flips.  They change what is
reported about the gates they name and nothing that depends on those gates.
-/

namespace FeatureGates

structure Overrides where
  enabled : List String := []
  disabled : List String := []
  toggled : List String := []
  deriving DecidableEq

namespace Overrides

def enabledParameter : String := "enabledFeatures"

def disabledParameter : String := "disabledFeatures"

def toggledParameter : String := "toggledFeatures"

/-- Overrides from the comma-separated values of the three parameters. -/
def ofQuery (enabled disabled toggled : Option String) : Overrides :=
  let names (value : Option String) : List String :=
    Text.distinct ((value.map Text.pieces).getD [])
  ⟨names enabled, names disabled, names toggled⟩

/-- The entries of all values of a parameter.  The name of a parameter may be written in any case
of its letters. -/
def entriesOf (parameter : String) (pairs : List (String × String)) : List String :=
  (pairs.filter fun pair => Text.sameAsciiLetters pair.1.toList parameter.toList).flatMap
    fun pair => Text.pieces pair.2

/-- Overrides from the decoded pairs of a query; a repeated parameter adds to its list. -/
def ofPairs (pairs : List (String × String)) : Overrides :=
  ⟨Text.distinct (entriesOf enabledParameter pairs),
   Text.distinct (entriesOf disabledParameter pairs),
   Text.distinct (entriesOf toggledParameter pairs)⟩

def isEmpty (o : Overrides) : Bool := o.enabled.isEmpty && o.disabled.isEmpty && o.toggled.isEmpty

/-- Every name in any of the lists. -/
def names (o : Overrides) : List String := o.enabled ++ o.disabled ++ o.toggled

/-- What becomes of the decision on `gate`.  It is flipped first, then turned on, then turned off,
so the last of these that names the gate counts. -/
def apply (o : Overrides) (gate : String) (computed : Decision) : Decision :=
  let flipped :=
    if Text.listsName o.toggled gate then Decision.overridden (!computed.active) .toggled
    else computed
  let on := if Text.listsName o.enabled gate then Decision.overridden true .enabled else flipped
  if Text.listsName o.disabled gate then Decision.overridden false .disabled else on

/-- The decision that is reported about `gate`.  A gate that does not exist cannot be overridden. -/
def amend (o : Overrides) (gate : String) (computed : Decision) : Decision :=
  if o.isEmpty || computed.isMissing then computed else o.apply gate computed

end Overrides
end FeatureGates
