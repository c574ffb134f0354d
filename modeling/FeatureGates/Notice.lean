/-!
Notices: what is worth telling about a load or an evaluation besides its answer.  Every notice has
its line in the log; the ones that point at a misconfiguration are also events for a recorder.
-/

namespace FeatureGates

/-- Why there are no flights. -/
inductive FlightFault where
  | timeout
  | cancelled
  /-- The service failed, for a reason of its own. -/
  | fetch (reason : String)
  deriving DecidableEq

def FlightFault.message : FlightFault → String
  | timeout => "flight fetch timed out"
  | cancelled => "flight fetch was cancelled"
  | fetch reason => "flight fetch failed: " ++ reason

inductive Notice where
  /-- The gate at `path` is not found by its name, because the one at `winner` is. -/
  | shadowed (path winner : String)
  | unreadableForwardedEntry (entry : String)
  /-- Deciding a gate came back to it. -/
  | cycle (gate path : String)
  | unknownParent (gate : String)
  | unknownOverride (gate : String)
  | flightSwitchedOff (flight : String)
  /-- A flight has the name of a configured gate. -/
  | flightCollision (flight : String) (accepted : Bool)
  | flightsUnavailable (fault : FlightFault)
  | published (version gateCount : Nat)
  deriving DecidableEq

inductive LogLevel where
  | warn
  | debug
  deriving DecidableEq

structure LogLine where
  level : LogLevel
  message : String
  deriving DecidableEq

inductive Event where
  | cycle (gate : String)
  | flightCollision (flight : String) (accepted : Bool)
  | flightsUnavailable (fault : FlightFault)
  deriving DecidableEq

namespace Notice

/-- The line in the log; accepting a flight leaves none. -/
def logLine? : Notice → Option LogLine
  | shadowed path winner =>
    some ⟨.warn, "gate '" ++ path ++ "' is shadowed by '" ++ winner ++ "' for lookups by name"⟩
  | unreadableForwardedEntry entry =>
    some ⟨.warn, "ignoring unparseable X-Forwarded-For entry '" ++ entry ++ "'"⟩
  | cycle _ path =>
    some ⟨.warn, "parent relationship to gate '" ++ path ++
      "' caused a circular reference; treating it as inactive"⟩
  | unknownParent gate => some ⟨.debug, "parent gate '" ++ gate ++ "' does not exist"⟩
  | unknownOverride gate => some ⟨.debug, "ignoring override for unknown gate '" ++ gate ++ "'"⟩
  | flightSwitchedOff flight =>
    some ⟨.debug, "flight '" ++ flight ++ "' switched off by query override"⟩
  | flightCollision flight false =>
    some ⟨.warn, "flight '" ++ flight ++ "' collides with a configured gate and was ignored"⟩
  | flightCollision _ true => none
  | flightsUnavailable fault => some ⟨.warn, "continuing without flights: " ++ fault.message⟩
  | published version gateCount =>
    some ⟨.debug, "published gate snapshot version " ++ toString version ++ " with " ++
      toString gateCount ++ " gates"⟩

def event? : Notice → Option Event
  | cycle gate _ => some (.cycle gate)
  | flightCollision flight accepted => some (.flightCollision flight accepted)
  | flightsUnavailable fault => some (.flightsUnavailable fault)
  | _ => none

def log (notices : List Notice) : List LogLine := notices.filterMap logLine?

/-- What a recorder is told, if one is attached. -/
def events (recorder : Bool) (notices : List Notice) : List Event :=
  if recorder then notices.filterMap event? else []

end Notice

/-- An answer and the notices given on the way to it, earliest first. -/
structure Noted (α : Type) where
  answer : α
  notices : List Notice

namespace Noted

def map {α β : Type} (f : α → β) (n : Noted α) : Noted β := ⟨f n.answer, n.notices⟩

/-- One step after another; the notices of the first come first. -/
def bind {α β : Type} (n : Noted α) (f : α → Noted β) : Noted β :=
  let next := f n.answer
  ⟨next.answer, n.notices ++ next.notices⟩

instance : Monad Noted where
  pure a := ⟨a, []⟩
  bind := bind

instance : LawfulMonad Noted := LawfulMonad.mk' Noted
  (fun n => by simp [Functor.map, bind])
  (fun a f => by simp [Bind.bind, Pure.pure, bind])
  (fun n f g => by simp [Bind.bind, bind])

variable {α β γ : Type}

@[simp] theorem answer_pure (a : α) : (pure a : Noted α).answer = a := rfl

@[simp] theorem answer_bind (n : Noted α) (f : α → Noted β) :
    (n >>= f).answer = (f n.answer).answer := rfl

@[simp] theorem answer_functorMap (f : α → β) (n : Noted α) : (f <$> n).answer = f n.answer := rfl

@[simp] theorem answer_map (f : α → β) (n : Noted α) : (n.map f).answer = f n.answer := rfl

theorem map_bind (n : Noted α) (f : α → Noted β) (g : β → γ) :
    (n >>= f).map g = n >>= fun a => (f a).map g := rfl

theorem bind_map (n : Noted α) (g : α → β) (f : β → Noted γ) :
    n.map g >>= f = n >>= fun a => f (g a) := rfl

end Noted

/-- Gives a notice. -/
def note (n : Notice) : Noted Unit := ⟨(), [n]⟩

end FeatureGates
