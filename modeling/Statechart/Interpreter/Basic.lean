import Statechart.History
import Statechart.Journal.Basic
import Statechart.Machine
import Statechart.Step

/-!
# The state of an interpreter

An interpreter holds one running instance of a machine: the context, the active states, the queue,
the invocations and timers of the active states, the observers and the history. This module has
its parts, what can be read off it, and the queue. Every message that was accepted goes to the end
of the queue (`enqueue`); none is accepted once the interpreter is dropped.
-/

namespace Statechart

/-- A running invocation of an active state. -/
structure Invocation where
  origin : InvocationId
  state : StateId
  id : String
  /-- the name of the service -/
  service : String
  handle : InvokeHandle Teardown

/-- A timer armed for the delayed transition of a state at an index. -/
structure Timer where
  id : TimerId
  state : StateId
  index : Nat
  millis : Nat
  deriving DecidableEq

/-- What a service was given to emit events with. -/
structure Emitter where
  /-- the name of the service -/
  service : String
  alive : Bool
  deriving DecidableEq

/-- A running instance of a machine. -/
structure Interpreter (C : Type) where
  machine : Machine C
  context : C
  configuration : Configuration
  status : Status
  /-- the messages that wait, the next one first -/
  queue : List Envelope
  /-- the running invocations in the order of starting -/
  invocations : List Invocation
  /-- the emitter of every invocation there was, by its number -/
  emitters : Array Emitter
  /-- the armed timers in the order of arming -/
  timers : List Timer
  /-- the number of the next timer -/
  nextTimer : Nat
  /-- whether there is a clock for delays -/
  hasClock : Bool
  /-- the observers by the numbers of their subscriptions, in the order of subscribing -/
  observers : List (Nat × Observer C)
  nextSubscription : Nat
  history : History
  /-- the event processed last -/
  lastEvent : Option Event
  /-- what the clock shows -/
  now : Instant
  /-- whether the interpreter is gone -/
  dropped : Bool
  journal : Array (Entry C)

namespace Interpreter

variable {C : Type}

/-- A new interpreter that has not been started. -/
def new (machine : Machine C) (context : C) : Interpreter C where
  machine
  context
  configuration := .empty
  status := .notStarted
  queue := []
  invocations := []
  emitters := #[]
  timers := []
  nextTimer := 0
  hasClock := true
  observers := []
  nextSubscription := 0
  history := .withLimit History.defaultLimit
  lastEvent := none
  now := .epoch
  dropped := false
  journal := #[]

/-- Keep at most `limit` transitions in the history. -/
def withHistoryLimit (i : Interpreter C) (limit : Nat) : Interpreter C :=
  { i with history := .withLimit limit }

/-- The same interpreter where there is no clock. -/
def withoutClock (i : Interpreter C) : Interpreter C := { i with hasClock := false }

/-! ### Reading -/

def tree (i : Interpreter C) : StateTree := i.machine.tree

/-- The keys of the active states below the root. -/
def value (i : Interpreter C) : List String := i.configuration.value i.tree

/-- What an observer would see now. -/
def snapshot (i : Interpreter C) : Snapshot C := ⟨i.value, i.context, i.status, i.lastEvent⟩

/-- Whether an event of the given name would be handled now. -/
def can (i : Interpreter C) (event : String) : Bool :=
  i.status == .running && (i.tree.select i.configuration event).isSome

/-- The running invocations as pairs of the id of the state and their own id, in the order of
starting. -/
def runningInvocations (i : Interpreter C) : List (String × String) :=
  i.invocations.map fun v => ((i.tree.node v.state).id, v.id)

/-- The armed timers as pairs of the id of the state and the delay in milliseconds, in the order of
arming. -/
def armedTimers (i : Interpreter C) : List (String × Nat) :=
  i.timers.map fun t => ((i.tree.node t.state).id, t.millis)

/-- Whether an invocation runs. -/
def isLive (i : Interpreter C) (origin : InvocationId) : Bool :=
  i.invocations.any fun v => v.origin == origin

/-- Whether the emitter of an invocation still reaches the interpreter. -/
def isAlive (i : Interpreter C) (origin : InvocationId) : Bool :=
  !i.dropped && (i.emitters[origin.number]?).any Emitter.alive

/-- The numbers of the invocations of a service so far. -/
def origins (i : Interpreter C) (service : String) : List InvocationId :=
  (i.emitters.toList.zipIdx.filter fun e => e.1.service == service).map fun e => ⟨e.2⟩

/-- The invocation that an emitter belongs to, if there is such an emitter. -/
def emitter? (i : Interpreter C) : EmitterRef → Option InvocationId
  | .of origin => if origin.number < i.emitters.size then some origin else none
  | .given service none => (i.origins service).getLast?
  | .given service (some nth) => (i.origins service)[nth]?

/-- A description of an emitter. -/
def emitterText (i : Interpreter C) (origin : InvocationId) : String :=
  "Emitter \x7b origin: InvocationId(" ++ toString origin.number ++ "), alive: " ++
    toString (i.isAlive origin) ++ " \x7d"

/-- A description of the interpreter. The session that it belongs to is not told apart. -/
def text (i : Interpreter C) : String :=
  "Interpreter \x7b session: <session>, machine: " ++ Text.quote i.machine.id ++ ", status: " ++
    i.status.name ++ ", invocations: " ++ toString i.invocations.length ++ ", timers: " ++
    toString i.timers.length ++ " \x7d"

/-! ### Journal and queue -/

/-- The number of the next call of host code. -/
def turn (i : Interpreter C) : Nat := i.journal.size

/-- Put an entry into the journal. -/
def note (i : Interpreter C) (e : Entry C) : Interpreter C := { i with journal := i.journal.push e }

/-- Put a message at the end of the queue. -/
def enqueue (i : Interpreter C) (e : Envelope) : Interpreter C :=
  { i.note (.enqueued e) with queue := i.queue ++ [e] }

/-- Whether messages are accepted. -/
def isOpen (i : Interpreter C) : Bool := !i.dropped

/-- Send a message from outside; it is lost if the interpreter is gone. -/
def post (i : Interpreter C) (e : Envelope) : Interpreter C := if i.isOpen then i.enqueue e else i

/-- Emit an event for an invocation; it is lost unless the emitter is alive. -/
def emit (i : Interpreter C) (origin : InvocationId) (event : Event) : Interpreter C :=
  if i.isAlive origin then i.enqueue (.event event (some origin)) else i

/-- Register an observer. Its number is `nextSubscription`. -/
def subscribe (i : Interpreter C) (observer : Observer C) : Interpreter C :=
  { i with
    observers := i.observers ++ [(i.nextSubscription, observer)]
    nextSubscription := i.nextSubscription + 1 }

/-- Whether there is an observer of that number. -/
def isSubscribed (i : Interpreter C) (subscription : Nat) : Bool :=
  i.observers.any fun o => o.1 == subscription

/-- Remove the observer of that number. -/
def unsubscribe (i : Interpreter C) (subscription : Nat) : Interpreter C :=
  { i with observers := i.observers.filter fun o => o.1 != subscription }

end Interpreter

end Statechart
