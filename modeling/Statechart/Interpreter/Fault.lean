import Statechart.Host

/-!
# How calls to an interpreter end

A call fails if an action fails or if the interpreter is at a stage of its life that does not allow
it; `Fault` says why. A call that processes messages has an `Outcome`.
-/

namespace Statechart

/-- Why a call to an interpreter failed. -/
inductive Fault where
  /-- an action failed while an event was processed; the actions after it were left out -/
  | actionFailed (action event : String) (cause : ActionError)
  /-- the machine has delays, and there is no clock -/
  | noClock (machine : String)
  | notStarted
  | terminated
  deriving DecidableEq

namespace Fault

/-- What is said about a fault. -/
def message : Fault → String
  | actionFailed action event cause =>
    "Action '" ++ action ++ "' failed while processing '" ++ event ++ "': " ++ cause.message
  | noClock machine =>
    "Machine '" ++ machine ++ "' has delayed transitions but no tokio runtime is running"
  | notStarted => "Interpreter has not been started"
  | terminated => "Interpreter has been stopped"

end Fault

/-- How a call that processes messages ends. -/
inductive Outcome where
  | done
  /-- there is no message to process -/
  | waiting
  | failed (fault : Fault)
  /-- the bound on the number of messages was reached -/
  | unfinished
  deriving DecidableEq

end Statechart
