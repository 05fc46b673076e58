import Statechart.Event

/-!
# Messages to an interpreter

Everything that reaches an interpreter from outside goes through one queue of envelopes. An
envelope says where it comes from, so that one whose sender is gone can be told apart.
-/

namespace Statechart

/-- The number of an invocation. Numbers are given in the order of starting, and never twice. -/
structure InvocationId where
  number : Nat
  deriving DecidableEq

/-- The number of a timer. Numbers are given in the order of arming, and never twice. -/
structure TimerId where
  number : Nat
  deriving DecidableEq

/-- How an invocation is named in a journal. -/
def InvocationId.label (i : InvocationId) : String := "invocation-" ++ toString i.number

/-- How a timer is named in a journal. -/
def TimerId.label (t : TimerId) : String := "timer-" ++ toString t.number

/-- A message in the queue of an interpreter. -/
inductive Envelope where
  /-- an event, from the host or from an invocation -/
  | event (event : Event) (origin : Option InvocationId)
  /-- a delay that has elapsed -/
  | timer (id : TimerId)
  /-- the request to stop -/
  | stop

end Statechart
