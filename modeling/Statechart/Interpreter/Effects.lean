import Statechart.Interpreter.Basic
import Statechart.Interpreter.Fault

/-!
# What a step does

The parts of a step: host code sends signals, states are left and entered, actions are run,
observers are notified. Leaving a state stops its invocations, the latest first, and then cancels
its timers; entering one starts its invocations and then arms its timers.
-/

namespace Statechart.Interpreter

variable {C : Type}

/-! ### Signals -/

/-- Do what a signal says. -/
def signal (i : Interpreter C) : Signal → Interpreter C
  | .send event => (i.post (.event event none)).note (.sent i.isOpen)
  | .stop => (i.post .stop).note (.sent i.isOpen)
  | .emit ref event =>
    match i.emitter? ref with
    | none => i.note (.emitted none)
    | some origin => (i.emit origin event).note (.emitted (some (i.isAlive origin)))
  | .elapse timer => i.post (.timer timer)

/-- Do what the signals say, one after another. -/
def deliver (i : Interpreter C) (signals : List Signal) : Interpreter C := signals.foldl signal i

/-! ### Leaving states -/

/-- Silence the emitter of an invocation. -/
def silence (i : Interpreter C) (origin : InvocationId) : Interpreter C :=
  { i with emitters := i.emitters.modify origin.number fun e => { e with alive := false } }

/-- Stop the handle of an invocation, and do what it says is left to do. -/
def tearDown (i : Interpreter C) (v : Invocation) : Interpreter C :=
  match v.handle.stop.1 with
  | none => i
  | some .abort => i.note (.taskAborted v.origin)
  | some (.callback signals) => (i.note (.tornDown v.service v.origin)).deliver signals

/-- Stop an invocation: it runs no more, its emitter falls silent, and then its handle is
stopped. -/
def stopInvocation (i : Interpreter C) (v : Invocation) : Interpreter C :=
  let i := { i with invocations := i.invocations.filter fun w => w.origin != v.origin }
  ((i.note (.invocationStopped v.origin v.id)).silence v.origin).tearDown v

/-- Stop all invocations of a state, the latest first. -/
def stopInvocations (i : Interpreter C) (s : StateId) : Interpreter C :=
  (i.invocations.filter fun v => v.state == s).reverse.foldl stopInvocation i

/-- Cancel a timer. -/
def cancelTimer (i : Interpreter C) (t : Timer) : Interpreter C :=
  { i.note (.timerCancelled t.id t.state) with timers := i.timers.filter fun u => u.id != t.id }

/-- Cancel all timers of a state. -/
def cancelTimers (i : Interpreter C) (s : StateId) : Interpreter C :=
  (i.timers.filter fun t => t.state == s).foldl cancelTimer i

/-- Release what belongs to a state that is left. -/
def leave (i : Interpreter C) (s : StateId) : Interpreter C := (i.stopInvocations s).cancelTimers s

/-- Release what belongs to states that are left, in the given order. -/
def leaveAll (i : Interpreter C) (states : List StateId) : Interpreter C := states.foldl leave i

/-! ### Entering states -/

/-- Start an invocation of a state. Its emitter is alive from the beginning. -/
def startInvocation (s : StateId) (i : Interpreter C) (v : Invoke) : Interpreter C :=
  let origin : InvocationId := ⟨i.emitters.size⟩
  let service := i.tree.serviceName v.service
  let startup := i.machine.service v.service origin
  let i := { i with emitters := i.emitters.push ⟨service, true⟩ }
  let i := (i.note (.serviceCalled service origin)).deliver startup.signals
  let i :=
    match startup.task with
    | none => i
    | some task => i.note (.taskSpawned origin task)
  { i.note (.invocationStarted origin v.id s) with
    invocations := i.invocations ++ [⟨origin, s, v.id, service, startup.handle⟩] }

/-- Arm the timer of the delayed transition at an index. -/
def armTimer (s : StateId) (i : Interpreter C) (delay : Delay × Nat) : Interpreter C :=
  if i.hasClock then
    let id : TimerId := ⟨i.nextTimer⟩
    { i.note (.timerArmed id s delay.1.millis) with
      timers := i.timers ++ [⟨id, s, delay.2, delay.1.millis⟩]
      nextTimer := i.nextTimer + 1 }
  else i.note (.timerUnarmed s delay.1.millis)

/-- Start what belongs to a state that is entered. -/
def enter (i : Interpreter C) (s : StateId) : Interpreter C :=
  let node := i.tree.node s
  node.after.zipIdx.foldl (armTimer s) (node.invoke.foldl (startInvocation s) i)

/-- Start what belongs to states that are entered, in the given order. -/
def enterAll (i : Interpreter C) (states : List StateId) : Interpreter C := states.foldl enter i

/-! ### Actions and observers -/

/-- Run actions in order up to the first one that fails. -/
def runActions (event : Event) (i : Interpreter C) : List ActionId → Interpreter C × Option Fault
  | [] => (i, none)
  | a :: rest =>
    let name := i.tree.actionName a
    let action := i.machine.action a
    let i := i.note (.ran name event.name)
    let (context, failure) := action.effect i.context event
    let signals := action.signals i.turn i.context event
    let i := { i with context }.deliver signals
    match failure with
    | none => runActions event i rest
    | some cause =>
      (i.note (.actionFailed name event.name cause.message),
        some (.actionFailed name event.name cause))

/-- Present a snapshot to an observer. -/
def present (snapshot : Snapshot C) (i : Interpreter C) (observer : Nat × Observer C) :
    Interpreter C :=
  let signals := observer.2 i.turn snapshot
  (i.note (.observed observer.1 snapshot)).deliver signals

/-- Present what there is to see to all observers, in the order of subscribing. -/
def notify (i : Interpreter C) : Interpreter C := i.observers.foldl (present i.snapshot) i

end Statechart.Interpreter
