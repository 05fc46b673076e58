import Statechart.Scenario.Script
import Statechart.Session.Basic

/-!
# Scenarios

A scenario is a list of commands to a session with a scripted host. Each command has an answer.
-/

namespace Statechart

/-- A command to a session. -/
inductive Command where
  | start
  | send (event : Event)
  | stop
  /-- process what waits -/
  | drain
  | next
  | run
  | post (event : Event)
  | postStop
  | emit (emitter : EmitterRef) (event : Event)
  | inspect (emitter : EmitterRef)
  | advance (millis : Nat)
  | postLater (millis : Nat) (event : Event)
  | stopLater (millis : Nat)
  | can (event : String)
  | matchesPath (path : String)
  | strings
  | leaf
  | configuration
  | snapshot
  | history
  | subscribe
  | unsubscribe (subscription : Nat)
  | describe
  | drop

/-- The answer to a command. -/
inductive Answer where
  | done
  /-- the session waited for a message in vain -/
  | idle
  | fault (fault : Fault)
  /-- a bound was reached -/
  | unfinished
  /-- there is no clock -/
  | noClock
  /-- the interpreter is gone -/
  | gone
  | noEmitter
  /-- there is nothing to answer -/
  | nothing
  | flag (b : Bool)
  | number (n : Nat)
  | text (s : String)
  | names (l : List String)
  | emitter (alive : Bool) (origin : InvocationId) (description : String)
  | snapshot (s : Snapshot Tally)
  | history (h : History)

namespace Answer

/-- The answer to a call that processes messages. -/
def ofOutcome : Outcome → Answer
  | .done => done
  | .waiting => idle
  | .failed f => fault f
  | .unfinished => unfinished

/-- The answer to a stop. -/
def ofFault : Option Fault → Answer
  | none => done
  | some f => fault f

end Answer

namespace Session

/-- The bound on the number of messages that one command processes. -/
def fuel : Nat := 4294967296

/-- Carry out a command that does not need the interpreter to be there. -/
def performRemote? (s : Session Tally) : Command → Option (Session Tally × Answer)
  | .post event => some (s.update fun i => i.post (.event event none), .flag s.interpreter.isOpen)
  | .postStop => some (s.update fun i => i.post .stop, .flag s.interpreter.isOpen)
  | .emit ref event =>
    match s.interpreter.emitter? ref with
    | none => some (s, .noEmitter)
    | some origin => some (s.update fun i => i.emit origin event, .flag (s.interpreter.isAlive origin))
  | .inspect ref =>
    match s.interpreter.emitter? ref with
    | none => some (s, .noEmitter)
    | some origin =>
      some (s, .emitter (s.interpreter.isAlive origin) origin (s.interpreter.emitterText origin))
  | .advance millis =>
    if s.interpreter.hasClock then some (s.advanceTo (s.now + millis), .done)
    else some (s, .noClock)
  | .postLater millis event =>
    if s.interpreter.hasClock then some (s.later millis (.event event), .done)
    else some (s, .noClock)
  | .stopLater millis =>
    if s.interpreter.hasClock then some (s.later millis .stop, .done) else some (s, .noClock)
  | _ => none

/-- Carry out a command that needs the interpreter. -/
def performLocal (s : Session Tally) : Command → Session Tally × Answer
  | .start => (s.call (Interpreter.start fuel)).map id .ofOutcome
  | .send event => (s.call fun i => i.send fuel event).map id .ofOutcome
  | .stop => (s.call Interpreter.stop).map id .ofFault
  | .drain => (s.call (Interpreter.drain fuel)).map id .ofOutcome
  | .next => (s.next fuel).map id .ofOutcome
  | .run => (s.run fuel).map id .ofOutcome
  | .can event => (s, .flag (s.interpreter.can event))
  | .matchesPath path => (s, .flag (s.interpreter.snapshot.matchesPath path))
  | .strings => (s, .names s.interpreter.snapshot.strings)
  | .leaf => (s, (s.interpreter.snapshot.leaf?.map .text).getD .nothing)
  | .configuration => (s, .names (s.interpreter.configuration.ids s.interpreter.tree))
  | .snapshot => (s, .snapshot s.interpreter.snapshot)
  | .history => (s, .history s.interpreter.history)
  | .subscribe =>
    (s.update fun i => i.subscribe fun _ _ => [], .number s.interpreter.nextSubscription)
  | .unsubscribe n =>
    if n < s.interpreter.nextSubscription then
      (s.update fun i => i.unsubscribe n, .flag (s.interpreter.isSubscribed n))
    else (s, .nothing)
  | .describe => (s, .text s.interpreter.text)
  | .drop => (s.update Interpreter.drop, .done)
  | _ => (s, .nothing)

/-- Carry out a command. -/
def perform (s : Session Tally) (c : Command) : Session Tally × Answer :=
  match s.performRemote? c with
  | some answer => answer
  | none => if s.interpreter.dropped then (s, .gone) else s.performLocal c

/-- The entries of the journal that a command has added, given the session before it. -/
def entriesSince (s before : Session Tally) : List (Entry Tally) :=
  (s.interpreter.journal.extract before.interpreter.journal.size).toList

end Session

end Statechart
