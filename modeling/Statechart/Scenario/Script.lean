import Statechart.Host
import Statechart.Json.Writer

/-!
# Scripted hosts

A scripted host is described by data: each of its actions and services does one of a few simple
things. Its context is a counter and the last payload that it kept.
-/

namespace Statechart

/-- The context of a scripted host. -/
structure Tally where
  count : Int64
  /-- the payload that was kept last -/
  last : Option Json

/-- The context at the start. -/
def Tally.zero : Tally := ⟨0, none⟩

/-- A payload that is a whole number of 64 bits with a sign. -/
def Event.amount? (e : Event) : Option Int64 :=
  match e.payload with
  | some (.number (.whole n)) =>
    if Number.leastSigned ≤ n ∧ n ≤ Number.greatestSigned then some (Int64.ofInt n) else none
  | _ => none

/-- What a scripted action does. -/
inductive ActionScript where
  /-- nothing -/
  | log
  /-- add the payload to the counter, or else the given number -/
  | add (amount : Int64)
  /-- keep the payload -/
  | payload
  /-- fail -/
  | fail (message : String)
  /-- fail if the event has that name -/
  | failOn (event message : String)
  /-- fail if the counter has that value -/
  | failAt (count : Int64) (message : String)
  | send (event : Event)
  | stop
  | emit (emitter : EmitterRef) (event : Event)

namespace ActionScript

/-- What a scripted action does to the context, and whether it fails. -/
def effect : ActionScript → Tally → Event → Tally × Option ActionError
  | add amount, c, e => ({ c with count := c.count + e.amount?.getD amount }, none)
  | payload, c, e => ({ c with last := e.payload }, none)
  | fail message, c, _ => (c, some ⟨message⟩)
  | failOn event message, c, e => (c, if e.name = event then some ⟨message⟩ else none)
  | failAt count message, c, _ => (c, if c.count = count then some ⟨message⟩ else none)
  | _, c, _ => (c, none)

/-- The signals that a scripted action sends. -/
def signals : ActionScript → List Signal
  | send event => [.send event]
  | stop => [.stop]
  | emit emitter event => [.emit emitter event]
  | _ => []

/-- The action of a script. -/
def action (s : ActionScript) : Action Tally := ⟨s.effect, fun _ _ _ => s.signals⟩

end ActionScript

/-- What a scripted service does while it runs and when it is stopped. -/
inductive ServiceKind where
  /-- nothing until it is stopped; then it tries to emit events -/
  | record (onStop : List String)
  /-- nothing at all -/
  | noop
  /-- emit an event several times; being stopped ends that -/
  | task (task : Task)

/-- A scripted service: the events it emits when it starts, and what it does then. -/
structure ServiceScript where
  onStart : List String
  kind : ServiceKind

namespace ServiceScript

/-- The signals for emitting events through the emitter of an invocation. -/
def emissions (origin : InvocationId) (events : List String) : List Signal :=
  events.map fun event => .emit (.of origin) (.named event)

/-- The service of a script. -/
def service (s : ServiceScript) : Service := fun origin =>
  let signals := emissions origin s.onStart
  match s.kind with
  | .record onStop => ⟨signals, none, .new (.callback (emissions origin onStop))⟩
  | .noop => ⟨signals, none, .noop⟩
  | .task task => ⟨signals, some task, .new .abort⟩

end ServiceScript

/-- The implementations of a scripted host. -/
def scriptedHost (actions : List (String × ActionScript))
    (services : List (String × ServiceScript)) : Implementations Tally :=
  services.foldl (fun host s => host.service s.1 s.2.service)
    (actions.foldl (fun host a => host.action a.1 a.2.action) .none)

end Statechart
