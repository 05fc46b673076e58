import Statechart.Journal.Basic

/-!
# Agendas

An agenda lists what is going to happen by the clock, in the order in which it was put down. What
is due at the same time happens in that order. An agenda follows the journal of an interpreter:
armed timers and the tasks of services go onto it, and what is cancelled comes off it again
(`Agenda.follow`).
-/

namespace Statechart

/-- Something that happens when its time has come. -/
inductive Wake where
  /-- the delay of a timer has elapsed -/
  | timer (id : TimerId)
  /-- the task of a service emits its event; the count of the task includes this time -/
  | tick (origin : InvocationId) (task : Task)
  /-- the host sends an event -/
  | event (event : Event)
  /-- the host asks for a stop -/
  | stop

/-- How often a wake happens, its repetitions included. -/
def Wake.count : Wake → Nat
  | tick _ task => task.times
  | _ => 1

/-- A wake and the time when it is due, in milliseconds. -/
structure Sleeper where
  due : Nat
  wake : Wake

/-- What is going to happen, in the order in which it was put down. -/
structure Agenda where
  sleepers : List Sleeper

namespace Agenda

def empty : Agenda := ⟨[]⟩

/-- Put a wake down that is due after `millis`. -/
def add (a : Agenda) (now millis : Nat) (wake : Wake) : Agenda :=
  ⟨a.sleepers ++ [⟨now + millis, wake⟩]⟩

/-- Take off what is expected of a timer. -/
def removeTimer (a : Agenda) (id : TimerId) : Agenda :=
  ⟨a.sleepers.filter fun s =>
    match s.wake with
    | .timer other => other != id
    | _ => true⟩

/-- Take off what is expected of the task of an invocation. -/
def removeTask (a : Agenda) (origin : InvocationId) : Agenda :=
  ⟨a.sleepers.filter fun s =>
    match s.wake with
    | .tick other _ => other != origin
    | _ => true⟩

/-- Follow an entry of a journal that was made at the time `now`. -/
def follow {C : Type} (now : Nat) (a : Agenda) : Entry C → Agenda
  | .timerArmed timer _ millis => a.add now millis (.timer timer)
  | .timerCancelled timer _ => a.removeTimer timer
  | .taskSpawned origin task =>
    if task.times = 0 then a else a.add now task.period (.tick origin task)
  | .taskAborted origin => a.removeTask origin
  | _ => a

/-- The time when something is due next. -/
def nextDue? (a : Agenda) : Option Nat := (a.sleepers.map Sleeper.due).min?

/-- Take the first of the given sleepers that is due at `due`. -/
def takeAt (due : Nat) : List Sleeper → Option (Sleeper × List Sleeper)
  | [] => none
  | s :: rest =>
    if s.due = due then some (s, rest)
    else (takeAt due rest).map fun (found, others) => (found, s :: others)

/-- What happens next, if it is due by the time `limit`, and the agenda without it. -/
def takeDue? (a : Agenda) (limit : Nat) : Option (Sleeper × Agenda) :=
  match a.nextDue? with
  | none => none
  | some due =>
    if due ≤ limit then (takeAt due a.sleepers).map fun (s, rest) => (s, ⟨rest⟩) else none

/-- How many wakes are on the agenda, all repetitions included. -/
def load (a : Agenda) : Nat := a.sleepers.foldr (fun s n => s.wake.count + n) 0

end Agenda

end Statechart
