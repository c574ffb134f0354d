import FeatureGates.Hierarchy.Load

/-!
Stores: a source of gate documents and the hierarchy that was last loaded from it.  Every successful
load is published under the next version; a failed one leaves everything as it was.
-/

namespace FeatureGates

/-- Where documents come from. -/
inductive Source where
  /-- A document that never changes. -/
  | fixed (document : String)
  /-- A document in memory that can be exchanged. -/
  | memory (document : String)
  /-- The bytes of a file, or nothing where there is no file. -/
  | file (content : Option ByteArray)

inductive ReadFault where
  | notFound
  /-- The bytes are not UTF-8. -/
  | invalidData
  deriving DecidableEq

inductive StoreFault where
  | read (fault : ReadFault)
  | load (fault : LoadFault)
  deriving DecidableEq

namespace Source

def read : Source → Except ReadFault String
  | fixed document => .ok document
  | memory document => .ok document
  | file none => .error .notFound
  | file (some bytes) => (String.fromUTF8? bytes).elim (.error .invalidData) .ok

/-- Puts another document in its place. -/
def write (document : String) : Source → Source
  | fixed old => fixed old
  | memory _ => memory document
  | file _ => file (some document.toUTF8)

/-- Puts other bytes into the file. -/
def writeBytes (bytes : ByteArray) : Source → Source
  | file _ => file (some bytes)
  | s => s

/-- Takes the file away. -/
def remove : Source → Source
  | file _ => file none
  | s => s

/-- Reads and loads the document as it is now. -/
def load (s : Source) : Noted (Except StoreFault Hierarchy) :=
  match s.read with
  | .error fault => pure (.error (.read fault))
  | .ok text => (Hierarchy.load text).map (·.mapError .load)

end Source

structure Store where
  source : Source
  /-- The hierarchy that is published. -/
  snapshot : Hierarchy

namespace Store

def version (s : Store) : Nat := s.snapshot.version

/-- A store whose first load must succeed. -/
def create (source : Source) : Noted (Except StoreFault Store) :=
  source.load.map fun loaded => loaded.map fun h => ⟨source, { h with version := 1 }⟩

/-- Loads the source again and answers the new version. -/
def reload (s : Store) : Noted (Except StoreFault Nat × Store) := do
  match ← s.source.load with
  | .error fault => return (.error fault, s)
  | .ok h =>
    let version := s.version + 1
    note (.published version h.size)
    return (.ok version, { s with snapshot := { h with version } })

end Store
end FeatureGates
