import Statechart.Event
import Statechart.Json.Fields
import Statechart.Text.Dotted

/-!
# Snapshots

What an observer sees after a step: the active states below the root as a list of keys, the
context, the status and the event that led there. The active states are also named by dotted
paths (`Snapshot.strings`), and a dotted path can be looked up (`Snapshot.matchesPath`).
-/

namespace Statechart

/-- The stages in the life of an interpreter. -/
inductive Status where
  | notStarted
  | running
  | stopped
  deriving DecidableEq

namespace Status

/-- How a status is written. -/
def name : Status → String
  | notStarted => "NotStarted"
  | running => "Running"
  | stopped => "Stopped"

def ofName? (name : String) : Option Status :=
  [notStarted, running, stopped].find? fun s => s.name == name

/-- A status: its name, or an object with the name as its only key and null as the value. -/
def ofJson? : Json → Option Status
  | .string name => ofName? name
  | .object [(name, .null)] => ofName? name
  | _ => none

def toJson (s : Status) : Json := .string s.name

end Status

/-- What an observer sees. -/
structure Snapshot (C : Type) where
  /-- the keys of the active states below the root, outermost first -/
  value : List String
  context : C
  status : Status
  /-- the event that led here -/
  event : Option Event

namespace Snapshot

variable {C : Type} (s : Snapshot C)

/-- The active states below the root as dotted paths, outermost first. -/
def strings : List String :=
  (List.range s.value.length).map fun n => Text.join (s.value.take (n + 1))

/-- Whether the state at a dotted path is active. -/
def matchesPath (path : String) : Bool := (Text.split path).isPrefixOf s.value

/-- The key of the innermost active state. -/
def leaf? : Option String := s.value.getLast?

end Snapshot

end Statechart
