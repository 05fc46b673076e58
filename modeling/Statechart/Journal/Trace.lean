import Statechart.Journal.Basic
import Statechart.Text.Quoted
import Statechart.Time.Duration

/-!
# Traces

The part of a journal that is of interest to someone who watches a machine at work, put into words:
a level, a message and named fields.
-/

namespace Statechart

/-- How important a remark is. -/
inductive Level where
  | trace
  | debug
  | info
  | warn
  deriving DecidableEq

/-- How a level is written. -/
def Level.name : Level → String
  | trace => "TRACE"
  | debug => "DEBUG"
  | info => "INFO"
  | warn => "WARN"

/-- A remark on something that happened. -/
structure Remark where
  level : Level
  message : String
  fields : List (String × String)

/-- How the length of a delay is written. -/
def delayText (millis : Nat) : String := (Duration.ofMillis millis).text

/-- What is remarked on an entry of the journal of a machine with the given id. -/
def Entry.remark? {C : Type} (machine : String) : Entry C → Option Remark
  | started value =>
    some ⟨.info, "Interpreter started", [("machine", machine), ("state", Text.quoteList value)]⟩
  | stopped => some ⟨.info, "Interpreter stopped", [("machine", machine)]⟩
  | stoppedUnstarted => some ⟨.info, "Interpreter stopped before starting", []⟩
  | discarded count =>
    if count = 0 then none
    else some ⟨.debug, "Discarded queued messages", [("dropped", toString count)]⟩
  | refused event => some ⟨.debug, "Dropping event sent after stop", [("event", event)]⟩
  | stale event origin =>
    some ⟨.debug, "Dropping event from stopped invocation",
      [("event", event), ("invocation", origin.label)]⟩
  | unhandled event value =>
    some ⟨.debug, "Event not handled", [("event", event), ("state", Text.quoteList value)]⟩
  | timerWasCancelled timer => some ⟨.debug, "Dropping cancelled timer", [("timer", timer.label)]⟩
  | timerWasInactive timer =>
    some ⟨.debug, "Dropping timer of inactive state", [("timer", timer.label)]⟩
  | taken event source value exited entered =>
    some ⟨.debug, "Transition taken",
      [("event", event), ("source", source), ("state", Text.quoteList value),
        ("exited", toString exited), ("entered", toString entered)]⟩
  | invocationStarted origin id state =>
    some ⟨.debug, "Invocation started",
      [("invocation", origin.label), ("id", id), ("state", state.label)]⟩
  | invocationStopped origin id =>
    some ⟨.debug, "Invocation stopped", [("invocation", origin.label), ("id", id)]⟩
  | timerArmed timer state millis =>
    some ⟨.debug, "Timer armed",
      [("timer", timer.label), ("state", state.label), ("delay", delayText millis)]⟩
  | timerCancelled timer state =>
    some ⟨.debug, "Timer cancelled", [("timer", timer.label), ("state", state.label)]⟩
  | timerUnarmed state millis =>
    some ⟨.warn, "No runtime to arm delay timer on",
      [("state", state.label), ("delay", delayText millis)]⟩
  | ran action event => some ⟨.trace, "Running action", [("action", action), ("event", event)]⟩
  | actionFailed action event message =>
    some ⟨.warn, "Action failed, skipping the rest of the step",
      [("action", action), ("event", event), ("error", message)]⟩
  | enqueued .. | dequeued .. | serviceCalled .. | taskSpawned .. | tornDown .. | taskAborted ..
  | sent .. | emitted .. | observed .. => none

/-- The remarks on the entries of a journal. -/
def trace {C : Type} (machine : String) (entries : List (Entry C)) : List Remark :=
  entries.filterMap (Entry.remark? machine)

end Statechart
