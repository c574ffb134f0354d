import FeatureGates.Directory
import FeatureGates.Network
import FeatureGates.Text.Folding

/-!
Named lists of networks.  Names are kept folded, and entries whose names differ only in case add to
the same list.
-/

namespace FeatureGates

/-- How a filter finds the networks behind a name; nothing is found for an unknown name. -/
abbrev NetworkLookup := String → Option (List Network)

structure NetworkTable where
  /-- The networks by folded name. -/
  lists : Directory (List Network)

namespace NetworkTable

def empty : NetworkTable := ⟨Directory.empty⟩

/-- Adds networks behind those already known under the name. -/
def add (t : NetworkTable) (name : String) (networks : List Network) : NetworkTable :=
  let key := Text.fold name
  ⟨t.lists.insert key (((t.lists.find? key).getD []) ++ networks)⟩

def ofEntries (entries : List (String × List Network)) : NetworkTable :=
  entries.foldl (fun t entry => t.add entry.1 entry.2) empty

def find? (t : NetworkTable) : NetworkLookup := fun name => t.lists.find? (Text.fold name)

end NetworkTable
end FeatureGates
