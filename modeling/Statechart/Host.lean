import Statechart.Envelope
import Statechart.InvokeHandle
import Statechart.Snapshot
import Statechart.Text.Quoted
import Statechart.Tree.Defects

/-!
# What the host supplies

A definition refers to actions and services by name; the host supplies them in a table
(`Implementations`). An action changes the context of the machine and may fail. A service is
started whenever its state is entered and leaves a handle behind by which it is stopped. While any
of them runs it may send signals to the interpreter.

Host code is a value here. What it may do depends on what it is given and, for the signals, on the
*turn*: a number that grows from one call to the next within a run, so that host code need not
send the same signals twice.
-/

namespace Statechart

/-- How the host refers to the emitter that a service was given when it was started. -/
inductive EmitterRef where
  /-- the emitter of an invocation -/
  | of (origin : InvocationId)
  /-- one of the emitters that the service of that name was ever given, counted from zero; the
  latest one if no number is said -/
  | given (service : String) (nth : Option Nat)

/-- What reaches an interpreter while host code runs, most of it from that code itself. -/
inductive Signal where
  | send (event : Event)
  | stop
  | emit (emitter : EmitterRef) (event : Event)
  /-- the delay of a timer elapses meanwhile -/
  | elapse (timer : TimerId)

/-- The failure of an action. -/
structure ActionError where
  message : String
  deriving DecidableEq

/-- An action on a context of type `C`. -/
structure Action (C : Type) where
  /-- the context afterwards, and the failure if there is one -/
  effect : C → Event → C × Option ActionError
  /-- the signals in a given turn -/
  signals : Nat → C → Event → List Signal

/-- An action that does nothing. -/
def Action.idle {C : Type} : Action C := ⟨fun context _ => (context, none), fun _ _ _ => []⟩

/-- Waiting a number of milliseconds and then emitting an event, several times. -/
structure Task where
  period : Nat
  event : Event
  times : Nat

/-- What is done when a service is stopped. -/
inductive Teardown where
  /-- host code runs and sends signals -/
  | callback (signals : List Signal)
  /-- the task ends -/
  | abort

/-- What starting a service amounts to. -/
structure Startup where
  signals : List Signal
  task : Option Task
  handle : InvokeHandle Teardown

/-- A service. It is told the number of its invocation. -/
abbrev Service := InvocationId → Startup

/-- A service that does nothing. -/
def Service.idle : Service := fun _ => ⟨[], none, .noop⟩

/-- An observer: the signals it sends in a given turn when it is shown a snapshot. -/
abbrev Observer (C : Type) := Nat → Snapshot C → List Signal

/-- The actions and services of a host by name. -/
structure Implementations (C : Type) where
  actions : Dict (Action C)
  services : Dict Service

namespace Implementations

variable {C : Type}

/-- No actions and no services. -/
def none : Implementations C := ⟨.empty, .empty⟩

/-- Register an action in place of any of that name. -/
def action (i : Implementations C) (name : String) (a : Action C) : Implementations C :=
  { i with actions := i.actions.insert name a }

/-- Register a service in place of any of that name. -/
def service (i : Implementations C) (name : String) (s : Service) : Implementations C :=
  { i with services := i.services.insert name s }

/-- The names there are implementations for. -/
def catalog (i : Implementations C) : Catalog :=
  ⟨fun name => (i.actions.find? name).isSome, fun name => (i.services.find? name).isSome⟩

/-- A description of the table by its names. -/
def text (i : Implementations C) : String :=
  "Implementations \x7b actions: " ++ Text.quoteList i.actions.keys ++ ", services: " ++
    Text.quoteList i.services.keys ++ " \x7d"

end Implementations

end Statechart
