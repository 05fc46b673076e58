import Statechart.Host

/-!
# Journals

The journal of an interpreter lists everything that happened in a run, in order: what went through
the queue, what became of it, what was started and stopped, and every call of host code. Nothing in
a run depends on the journal but the turns that host code sees.
-/

namespace Statechart

/-- Something that happened in a run. -/
inductive Entry (C : Type) where
  /-- the machine was entered -/
  | started (value : List String)
  /-- the machine was left for good -/
  | stopped
  /-- the interpreter was stopped before the machine was entered -/
  | stoppedUnstarted
  /-- messages were thrown away by a stop -/
  | discarded (count : Nat)
  /-- an event came after the stop -/
  | refused (event : String)
  /-- a message was put into the queue -/
  | enqueued (envelope : Envelope)
  /-- a message was taken out of the queue -/
  | dequeued (envelope : Envelope)
  /-- an event came from an invocation that was stopped meanwhile -/
  | stale (event : String) (origin : InvocationId)
  /-- no active state handles an event -/
  | unhandled (event : String) (value : List String)
  /-- a delay elapsed whose timer was cancelled meanwhile -/
  | timerWasCancelled (timer : TimerId)
  /-- a delay elapsed whose state is not active -/
  | timerWasInactive (timer : TimerId)
  /-- a transition of a state was taken -/
  | taken (event source : String) (value : List String) (exited entered : Nat)
  /-- a service was called -/
  | serviceCalled (service : String) (origin : InvocationId)
  /-- a service left a task running -/
  | taskSpawned (origin : InvocationId) (task : Task)
  /-- an invocation runs -/
  | invocationStarted (origin : InvocationId) (id : String) (state : StateId)
  /-- an invocation runs no more -/
  | invocationStopped (origin : InvocationId) (id : String)
  /-- the host code that stops a service was called -/
  | tornDown (service : String) (origin : InvocationId)
  /-- the task of a service was ended -/
  | taskAborted (origin : InvocationId)
  | timerArmed (timer : TimerId) (state : StateId) (millis : Nat)
  | timerCancelled (timer : TimerId) (state : StateId)
  /-- there was no clock to arm a timer with -/
  | timerUnarmed (state : StateId) (millis : Nat)
  /-- an action was run -/
  | ran (action event : String)
  /-- an action failed, so the actions after it are left out -/
  | actionFailed (action event message : String)
  /-- host code sent an event or asked for a stop -/
  | sent (accepted : Bool)
  /-- host code emitted an event; there may be no emitter of the kind it asked for -/
  | emitted (accepted : Option Bool)
  /-- an observer was shown a snapshot -/
  | observed (subscription : Nat) (snapshot : Snapshot C)

end Statechart
