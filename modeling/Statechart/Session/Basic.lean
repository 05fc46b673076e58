import Statechart.Interpreter.Run
import Statechart.Session.Agenda

/-!
# Sessions

A session is an interpreter together with a clock that starts at zero and an agenda. The clock
moves only when it is told to or while the session waits for a message. Whatever is due is sent to
the interpreter when the clock gets there, and never processed by that alone.
-/

namespace Statechart

/-- An interpreter with a clock and an agenda. -/
structure Session (C : Type) where
  interpreter : Interpreter C
  agenda : Agenda
  /-- milliseconds since the session began -/
  now : Nat
  /-- how many entries of the journal the agenda has followed -/
  followed : Nat

namespace Session

variable {C : Type}

/-- How long a session waits for a message, in milliseconds. -/
def patience : Nat := 3600000

/-- A session with the given interpreter. -/
def new (i : Interpreter C) : Session C := ⟨i, .empty, 0, i.journal.size⟩

/-- Let the agenda follow the journal. -/
def settle (s : Session C) : Session C :=
  { s with
    agenda := s.interpreter.journal.foldl (Agenda.follow s.now) s.agenda s.followed
    followed := s.interpreter.journal.size }

/-- Change the interpreter. -/
def update (s : Session C) (f : Interpreter C → Interpreter C) : Session C :=
  { s with interpreter := f s.interpreter }.settle

/-- Make a call to the interpreter. -/
def call (s : Session C) (f : Interpreter C → Interpreter C × α) : Session C × α :=
  let (interpreter, answer) := f s.interpreter
  ({ s with interpreter }.settle, answer)

/-! ### The clock -/

/-- Set the clock. -/
def setClock (s : Session C) (now : Nat) : Session C :=
  { s with now, interpreter := { s.interpreter with now := .ofMillis now } }

/-- Put a wake onto the agenda. -/
def later (s : Session C) (millis : Nat) (wake : Wake) : Session C :=
  { s with agenda := s.agenda.add s.now millis wake }

/-- Do what is due. A task that has to emit again goes back onto the agenda. -/
def fire (s : Session C) : Wake → Session C
  | .timer id => s.update fun i => i.post (.timer id)
  | .event event => s.update fun i => i.post (.event event none)
  | .stop => s.update fun i => i.post .stop
  | .tick origin task =>
    let s := s.update fun i => i.emit origin task.event
    if task.times ≤ 1 then s
    else s.later task.period (.tick origin { task with times := task.times - 1 })

/-- Do everything that is due by the time `limit`, but at most `fuel` things. -/
def fireUntil (limit : Nat) : Nat → Session C → Session C
  | 0, s => s
  | fuel + 1, s =>
    match s.agenda.takeDue? limit with
    | none => s
    | some (sleeper, agenda) =>
      fireUntil limit fuel (({ s with agenda }.setClock sleeper.due).fire sleeper.wake)

/-- Let the clock go on to `time`, and do everything that is due by then. -/
def advanceTo (s : Session C) (time : Nat) : Session C :=
  (s.fireUntil time s.agenda.load).setClock time

/-- Let the clock go on until a message waits, or else to the deadline. The last argument bounds
the number of times that it stops on the way. -/
def await (deadline : Nat) : Nat → Session C → Session C
  | 0, s => s
  | fuel + 1, s =>
    if s.interpreter.queue.isEmpty then
      match s.agenda.nextDue? with
      | none => s.setClock deadline
      | some due =>
        if due ≤ deadline then await deadline fuel (s.advanceTo due) else s.setClock deadline
    else s

/-- Process what waits; if nothing does, wait for a message until the deadline. -/
def nextBy (deadline fuel : Nat) (s : Session C) : Session C × Outcome :=
  let s := if s.interpreter.status = .running then s.await deadline (s.agenda.load + 1) else s
  s.call (Interpreter.next fuel)

/-- Do what is due and then process the next message with all that wait behind it. -/
def next (fuel : Nat) (s : Session C) : Session C × Outcome :=
  let s := s.advanceTo s.now
  s.nextBy (s.now + patience) fuel

/-- Process messages until the machine is stopped, an action fails, or the deadline has come. -/
def runBy (deadline fuel : Nat) : Nat → Session C → Session C × Outcome
  | 0, s => (s, .unfinished)
  | rounds + 1, s =>
    match s.interpreter.status with
    | .notStarted => (s, .failed .notStarted)
    | .stopped => (s, .done)
    | .running =>
      match s.nextBy deadline fuel with
      | (s, .done) => runBy deadline fuel rounds s
      | (s, outcome) => (s, outcome)

/-- Do what is due and then process messages until the machine is stopped. -/
def run (fuel : Nat) (s : Session C) : Session C × Outcome :=
  let s := s.advanceTo s.now
  s.runBy (s.now + patience) fuel fuel

end Session

end Statechart
