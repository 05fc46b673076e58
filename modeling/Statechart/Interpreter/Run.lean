import Statechart.Interpreter.Effects

/-!
# Running a machine

Messages are processed strictly one at a time. A message that is sent while another one is
processed waits until the step, with its actions and the notification of the observers, is over.
Processing goes on until the queue is empty, the machine is stopped, or an action fails; it may go
on for ever if host code keeps sending, so it is given a bound on the number of messages (`fuel`).
-/

namespace Statechart.Interpreter

variable {C : Type}

/-- Take a transition on an event: leave states, enter states, then run the actions. The step is
over, recorded and shown to the observers even if an action fails. -/
def take (i : Interpreter C) (transition : Transition) (event : Event) :
    Interpreter C × Option Fault :=
  let tree := i.tree
  let step := tree.plan i.configuration transition
  let source := i.configuration.idsBelowRoot tree
  let i := { i.leaveAll step.exit with configuration := step.configuration }.enterAll step.entry
  let i := i.note (.taken event.name (tree.node step.source).id i.value step.exit.length
    step.entry.length)
  let (i, fault) := i.runActions event step.actions
  let record : Record := ⟨event.name, source, i.configuration.idsBelowRoot tree, i.now⟩
  ({ i with history := i.history.record record, lastEvent := some event }.notify, fault)

/-- Throw away all messages that wait. -/
def discard (i : Interpreter C) : Interpreter C :=
  { i.note (.discarded i.queue.length) with queue := [] }

/-- Stop for good. A running machine is left as a whole and its actions on exit are run, innermost
first; what waits in the queue is thrown away. -/
def stop (i : Interpreter C) : Interpreter C × Option Fault :=
  match i.status with
  | .stopped => (i, none)
  | .notStarted =>
    let i := { i with status := .stopped }.discard
    ((i.note .stoppedUnstarted).notify, none)
  | .running =>
    let exited := i.configuration.innermostFirst
    let i := { i.leaveAll exited with configuration := .empty, status := .stopped }.discard
    let actions := exited.flatMap fun s => (i.tree.node s).exit
    let (i, fault) := (i.note .stopped).runActions .stop actions
    ({ i with lastEvent := some .stop }.notify, fault)

/-- Process an event. One from an invocation that was stopped meanwhile has no effect, nor has one
that no active state handles. -/
def processEvent (i : Interpreter C) (event : Event) (origin : Option InvocationId) :
    Interpreter C × Option Fault :=
  match origin.filter fun o => !i.isLive o with
  | some gone => (i.note (.stale event.name gone), none)
  | none =>
    match i.tree.select i.configuration event.name with
    | some transition => i.take transition event
    | none => (i.note (.unhandled event.name i.value), none)

/-- Process an elapsed delay. It has no effect if its timer was cancelled meanwhile. -/
def processTimer (i : Interpreter C) (id : TimerId) : Interpreter C × Option Fault :=
  match i.timers.find? fun t => t.id == id with
  | none => (i.note (.timerWasCancelled id), none)
  | some t =>
    let i := { i with timers := i.timers.filter fun u => u.id != id }
    if i.configuration.contains t.state then
      match (i.tree.node t.state).after[t.index]? with
      | some delay => i.take delay.transition (.named delay.event)
      | none => (i, none)
    else (i.note (.timerWasInactive id), none)

/-- Process a message. -/
def process (i : Interpreter C) : Envelope → Interpreter C × Option Fault
  | .event event origin => i.processEvent event origin
  | .timer id => i.processTimer id
  | .stop => i.stop

/-- Process messages until nothing is to be done or an action fails, at most `fuel` of them. -/
def drain : Nat → Interpreter C → Interpreter C × Outcome
  | 0, i => (i, if i.status = .running ∧ i.queue ≠ [] then .unfinished else .done)
  | fuel + 1, i =>
    match i.status, i.queue with
    | .running, e :: rest =>
      match { i.note (.dequeued e) with queue := rest }.process e with
      | (i, some fault) => (i, .failed fault)
      | (i, none) => drain fuel i
    | _, _ => (i, .done)

/-! ### Calls -/

/-- Enter the machine and then process the events that were sent before. The invocations and timers
of the first states are started before any action on entry is run. -/
def start (fuel : Nat) (i : Interpreter C) : Interpreter C × Outcome :=
  match i.status with
  | .running => (i, .done)
  | .stopped => (i, .failed .terminated)
  | .notStarted =>
    if i.tree.hasDelays ∧ ¬ i.hasClock then (i, .failed (.noClock i.tree.id))
    else
      let first := Configuration.initial i.tree
      let i := { i with configuration := first, status := .running }.enterAll first.states
      let i := i.note (.started i.value)
      let actions := first.states.flatMap fun s => (i.tree.node s).entry
      let (i, fault) := i.runActions .init actions
      let i := { i with lastEvent := some .init }.notify
      match fault with
      | some fault => (i, .failed fault)
      | none => i.drain fuel

/-- Send an event and process what waits. Before the start the event only waits; after the stop it
is lost. -/
def send (fuel : Nat) (i : Interpreter C) (event : Event) : Interpreter C × Outcome :=
  match i.status with
  | .stopped => (i.note (.refused event.name), .done)
  | _ => (i.enqueue (.event event none)).drain fuel

/-- Process the next message and then everything that waits behind it. -/
def next (fuel : Nat) (i : Interpreter C) : Interpreter C × Outcome :=
  match i.status with
  | .notStarted => (i, .failed .notStarted)
  | .stopped => (i, .failed .terminated)
  | .running => if i.queue.isEmpty then (i, .waiting) else i.drain fuel

/-- Give up the interpreter: all invocations are stopped, the latest first, and nothing reaches it
any more. -/
def drop (i : Interpreter C) : Interpreter C :=
  if i.dropped then i
  else
    { i.invocations.reverse.foldl stopInvocation i with
      timers := []
      queue := []
      dropped := true }

end Statechart.Interpreter
