import Mathlib.Logic.Relation
import Statechart.Proofs.Interpreter.Holdings
import Statechart.Proofs.Step.Splice

/-!
# Moves

Whatever a call to an interpreter does to what it holds comes about by a few moves. The main one is
a shift: states are left and others entered, together with all that belongs to them (`shift`).
What happens between the moves, host code above all, leaves the interpreter alike (`Alike`).
-/

namespace Statechart

namespace Interpreter

variable {C : Type}

/-! ### Alike interpreters -/

/-- Both hold the same, and the same deeds are in their journals. -/
structure Alike (i j : Interpreter C) : Prop where
  machine : j.machine = i.machine
  configuration : j.configuration = i.configuration
  status : j.status = i.status
  invocations : j.invocations = i.invocations
  emitters : j.emitters = i.emitters
  timers : j.timers = i.timers
  nextTimer : j.nextTimer = i.nextTimer
  hasClock : j.hasClock = i.hasClock
  dropped : j.dropped = i.dropped
  log : ∀ {α : Type} (f : Entry C → Option α), (∀ e, e.isDeed = false → f e = none) →
    j.log f = i.log f

theorem Alike.trans {i j k : Interpreter C} (hij : Alike i j) (hjk : Alike j k) : Alike i k where
  machine := hjk.machine.trans hij.machine
  configuration := hjk.configuration.trans hij.configuration
  status := hjk.status.trans hij.status
  invocations := hjk.invocations.trans hij.invocations
  emitters := hjk.emitters.trans hij.emitters
  timers := hjk.timers.trans hij.timers
  nextTimer := hjk.nextTimer.trans hij.nextTimer
  hasClock := hjk.hasClock.trans hij.hasClock
  dropped := hjk.dropped.trans hij.dropped
  log f hf := (hjk.log f hf).trans (hij.log f hf)

theorem alike_of_still {i j : Interpreter C} (h : j.still = i.still)
    (hlog : ∀ {α : Type} (f : Entry C → Option α), (∀ e, e.isDeed = false → f e = none) →
      j.log f = i.log f) : Alike i j := by
  simp only [still, mk.injEq] at h
  refine ⟨?_, ?_, ?_, ?_, ?_, ?_, ?_, ?_, ?_, hlog⟩ <;> simp only [h]

theorem Alike.refl (i : Interpreter C) : Alike i i :=
  ⟨rfl, rfl, rfl, rfl, rfl, rfl, rfl, rfl, rfl, fun _ _ => rfl⟩

/-- What is waiting, watching or remembered is not held. -/
theorem alike_aside (i : Interpreter C) (queue : List Envelope)
    (observers : List (Nat × Observer C)) (nextSubscription : Nat) (history : History)
    (lastEvent : Option Event) (now : Instant) :
    Alike i { i with queue, observers, nextSubscription, history, lastEvent, now } :=
  ⟨rfl, rfl, rfl, rfl, rfl, rfl, rfl, rfl, rfl, fun _ _ => rfl⟩

theorem alike_note (i : Interpreter C) {e : Entry C} (he : e.isDeed = false) :
    Alike i (i.note e) :=
  alike_of_still rfl fun f hf => by rw [log_note, hf e he]; simp

theorem alike_discard (i : Interpreter C) : Alike i i.discard :=
  (alike_note i (rfl : Entry.isDeed (.discarded i.queue.length) = false)).trans
    (alike_aside _ _ _ _ _ _ _)

theorem alike_post (i : Interpreter C) (e : Envelope) : Alike i (i.post e) :=
  alike_of_still (still_post i e) fun _ hf => log_post (fun e h _ => hf e h) i e

theorem alike_emit (i : Interpreter C) (origin : InvocationId) (event : Event) :
    Alike i (i.emit origin event) :=
  alike_of_still (still_emit i origin event) fun _ hf =>
    log_emit (fun e h _ => hf e h) i origin event

theorem alike_notify (i : Interpreter C) : Alike i i.notify :=
  alike_of_still (still_notify i) fun f hf => by
    rw [log_notify (fun e h _ => hf e h) i, List.filterMap_eq_nil_iff.mpr fun o _ => hf _ rfl,
      List.append_nil]

theorem alike_runActions (event : Event) (i : Interpreter C) (actions : List ActionId) :
    Alike i (i.runActions event actions).1 := by
  have hrun := sameBody_runActions event i actions
  refine { hrun with log := fun f hf => ?_ }
  obtain ⟨done, rest, _, _, hlog⟩ := log_runActions (fun e h _ => hf e h) event i actions
  rw [hlog, List.filterMap_eq_nil_iff.mpr fun a _ => hf _ rfl, List.append_nil]

/-! ### Reactions of the host -/

/-- Let the host react to what has happened: run actions, and show the observers what came of it. -/
def react (i : Interpreter C) (e : Entry C) (event : Event) (actions : List ActionId)
    (remember : Interpreter C → History) : Interpreter C × Option Fault :=
  let (i, fault) := (i.note e).runActions event actions
  ({ i with history := remember i, lastEvent := some event }.notify, fault)

theorem alike_react (i : Interpreter C) {e : Entry C} (he : e.isDeed = false) (event : Event)
    (actions : List ActionId) (remember : Interpreter C → History) :
    Alike i (i.react e event actions remember).1 := by
  let acted := ((i.note e).runActions event actions).1
  have hacted : Alike i acted := (alike_note i he).trans (alike_runActions event _ actions)
  have hremember : Alike acted { acted with history := remember acted, lastEvent := some event } :=
    alike_aside acted _ _ _ _ _ _
  exact (hacted.trans hremember).trans (alike_notify _)

/-! ### Shifts -/

/-- Leave states and enter others, with all that belongs to them. No action is run. -/
def shift (i : Interpreter C) (exit entry : List StateId) (c : Configuration) (status : Status) :
    Interpreter C :=
  { i.leaveAll exit with configuration := c, status }.enterAll entry

section Shift

variable (i : Interpreter C) (exit entry : List StateId) (c : Configuration) (status : Status)

theorem sameShell_shift :
    SameShell { i with configuration := c, status } (i.shift exit entry c status) := by
  apply sameShell_of_shell
  rw [shift, shell_enterAll]
  exact congrArg (fun k => { k with configuration := c, status }) (shell_leaveAll i exit)

@[simp] theorem shift_machine : (i.shift exit entry c status).machine = i.machine :=
  (sameShell_shift i exit entry c status).machine

@[simp] theorem shift_tree : (i.shift exit entry c status).tree = i.tree :=
  (sameShell_shift i exit entry c status).tree

@[simp] theorem shift_context : (i.shift exit entry c status).context = i.context :=
  (sameShell_shift i exit entry c status).context

@[simp] theorem shift_configuration : (i.shift exit entry c status).configuration = c :=
  (sameShell_shift i exit entry c status).configuration

@[simp] theorem shift_status : (i.shift exit entry c status).status = status :=
  (sameShell_shift i exit entry c status).status

@[simp] theorem shift_hasClock : (i.shift exit entry c status).hasClock = i.hasClock :=
  (sameShell_shift i exit entry c status).hasClock

@[simp] theorem shift_observers : (i.shift exit entry c status).observers = i.observers :=
  (sameShell_shift i exit entry c status).observers

@[simp] theorem shift_history : (i.shift exit entry c status).history = i.history :=
  (sameShell_shift i exit entry c status).history

@[simp] theorem shift_dropped : (i.shift exit entry c status).dropped = i.dropped :=
  (sameShell_shift i exit entry c status).dropped

end Shift

theorem Clocked.leaveAll {i : Interpreter C} (h : i.Clocked) (states : List StateId) :
    (i.leaveAll states).Clocked := by
  have hshell := sameShell_leaveAll i states
  rw [Clocked, hshell.tree, hshell.hasClock]
  exact h

/-- **A shift drops what belongs to the states that are left and appends what the entered ones
declare.** -/
theorem Numbered.shift_holdings {i : Interpreter C} (hi : i.Numbered) (hclock : i.Clocked)
    (exit entry : List StateId) (c : Configuration) (status : Status) :
    Held (i.shift exit entry c status)
      (i.invocations.filter (fun v => !exit.contains v.state) ++
        i.machine.invocationsFrom i.emitters.size entry)
      (i.emitters.size + (i.tree.invokes entry).length)
      (i.timers.filter (fun t => !exit.contains t.state) ++ i.tree.timersFrom i.nextTimer entry)
      (i.nextTimer + (i.tree.delays entry).length) := by
  obtain ⟨hv, hsize, ht, hnext⟩ := hi.leaveAll_holdings exit
  have hshell := sameShell_leaveAll i exit
  have hentered := enterAll_holdings
    { i.leaveAll exit with configuration := c, status } (hclock.leaveAll exit) entry
  rw [← hv, ← hsize, ← ht, ← hnext, ← hshell.machine, ← hshell.tree]
  exact hentered

theorem Numbered.shift {i : Interpreter C} (hi : i.Numbered) (hclock : i.Clocked)
    (exit entry : List StateId) (c : Configuration) (status : Status) :
    (i.shift exit entry c status).Numbered := by
  have hleft := hi.leaveAll exit
  have hmoved : { i.leaveAll exit with configuration := c, status }.Numbered :=
    ⟨hleft.invocations, hleft.timers⟩
  exact hmoved.enterAll (hclock.leaveAll exit) entry

/-- **What all parts of a shift keep up a shift keeps up.** -/
theorem shift_preserves {P : Interpreter C → Prop}
    (hstop : ∀ i v, P i → P (i.stopInvocation v)) (hcancel : ∀ i t, P i → P (i.cancelTimer t))
    (hmove : ∀ (i : Interpreter C) c status, P i → P { i with configuration := c, status })
    (hstart : ∀ s i v, P i → P (startInvocation s i v))
    (harm : ∀ s i delay, P i → P (armTimer s i delay)) {i : Interpreter C} (hi : P i)
    (exit entry : List StateId) (c : Configuration) (status : Status) :
    P (i.shift exit entry c status) := by
  have hleave (i : Interpreter C) (s : StateId) (hi : P i) : P (i.leave s) := by
    rw [leave, stopInvocations, cancelTimers]
    apply List.foldlRecOn
    · exact List.foldlRecOn _ _ hi fun i hi v _ => hstop i v hi
    · exact fun i hi t _ => hcancel i t hi
  have henter (i : Interpreter C) (s : StateId) (hi : P i) : P (i.enter s) := by
    rw [enter]
    apply List.foldlRecOn
    · exact List.foldlRecOn _ _ hi fun i hi v _ => hstart s i v hi
    · exact fun i hi delay _ => harm s i delay hi
  have hleft : P (i.leaveAll exit) := List.foldlRecOn _ _ hi fun i hi s _ => hleave i s hi
  exact List.foldlRecOn _ _ (hmove _ c status hleft) fun i hi s _ => henter i s hi

/-- The shift that a transition amounts to. -/
def shiftAlong (i : Interpreter C) (tr : Transition) : Interpreter C :=
  let step := i.tree.plan i.configuration tr
  i.shift step.exit step.entry step.configuration i.status

/-- Taking a transition is a shift, to which the host reacts. -/
theorem take_eq (i : Interpreter C) (tr : Transition) (event : Event) :
    let step := i.tree.plan i.configuration tr
    i.take tr event = (i.shiftAlong tr).react
      (.taken event.name (i.tree.node step.source).id (i.shiftAlong tr).value step.exit.length
        step.entry.length) event step.actions
      fun j => j.history.record ⟨event.name, i.configuration.idsBelowRoot i.tree,
        j.configuration.idsBelowRoot i.tree, j.now⟩ := by
  intro step
  have hshift : i.shiftAlong tr =
      { i.leaveAll step.exit with configuration := step.configuration }.enterAll step.entry := by
    simp only [shiftAlong, shift, ← (sameShell_leaveAll i step.exit).status, step]
  rw [hshift]
  rfl

/-- The entering part of a start. -/
def launch (i : Interpreter C) : Interpreter C × Option Fault :=
  let first := Configuration.initial i.tree
  let launched := i.shift [] first.states first .running
  launched.react (.started launched.value) .init
    (first.states.flatMap fun s => (i.tree.node s).entry) Interpreter.history

theorem start_eq (fuel : Nat) {i : Interpreter C} (hs : i.status = .notStarted)
    (hclock : i.Clocked) :
    i.start fuel =
      match i.launch.2 with
      | some fault => (i.launch.1, .failed fault)
      | none => i.launch.1.drain fuel := by
  have h : ¬ (i.tree.hasDelays = true ∧ ¬ i.hasClock = true) := by
    intro h
    exact h.2 (hclock h.1)
  have hactions : ((Configuration.initial i.tree).states.flatMap fun s => (i.tree.node s).entry) =
      (Configuration.initial i.tree).states.flatMap fun s => ((i.shift []
        (Configuration.initial i.tree).states (.initial i.tree) .running).tree.node s).entry := by
    simp only [shift_tree]
  simp only [start, hs, if_neg h, launch]
  rw [hactions]
  rfl

/-- A start that is refused for want of a clock changes nothing. -/
theorem start_refused {fuel : Nat} {i : Interpreter C} (hs : i.status = .notStarted)
    (hclock : ¬ i.Clocked) : i.start fuel = (i, .failed (.noClock i.tree.id)) := by
  have h : i.tree.hasDelays = true ∧ ¬ i.hasClock = true := by
    simpa only [Clocked, Classical.not_imp] using hclock
  simp only [start, hs, if_pos h]

/-- A running machine is stopped by a shift, to which the host reacts. -/
theorem stop_eq {i : Interpreter C} (hs : i.status = .running) :
    let exited := i.configuration.innermostFirst
    i.stop = (i.shift exited [] .empty .stopped).discard.react .stopped .stop
      (exited.flatMap fun s => (i.tree.node s).exit) Interpreter.history := by
  intro exited
  rw [← i.shift_tree exited [] .empty .stopped]
  simp only [stop, hs]
  rfl

/-- An interpreter that is given up before its machine was entered, when nobody has been told yet.
What waits is thrown away. -/
def abandoned (i : Interpreter C) : Interpreter C :=
  { i with status := .stopped }.discard.note .stoppedUnstarted

theorem stop_eq_of_notStarted {i : Interpreter C} (hs : i.status = .notStarted) :
    i.stop = (i.abandoned.notify, none) := by
  simp only [stop, hs]
  rfl

theorem stop_eq_of_stopped {i : Interpreter C} (hs : i.status = .stopped) : i.stop = (i, none) := by
  simp only [stop, hs]

/-! ### Moves -/

/-- Take up the elapsed delay of a timer, which is armed no more. -/
def expire (i : Interpreter C) (id : TimerId) : Interpreter C :=
  { i.note (.dequeued (.timer id)) with timers := i.timers.filter fun t => t.id != id }

/-- What may become of an interpreter at a time, unless it is dropped. -/
inductive Move {C : Type} (i : Interpreter C) : Interpreter C → Prop
  | aside {j : Interpreter C} (h : Alike i j) : Move i j
  | clock (hs : i.status = .notStarted) (present : Bool) : Move i { i with hasClock := present }
  | launch (hs : i.status = .notStarted) (hd : i.dropped = false) (hclock : i.Clocked) :
      Move i (i.shift [] (i.tree.initialPath i.tree.root) (.initial i.tree) .running)
  | take (hs : i.status = .running) (hd : i.dropped = false) {s : StateId} {tr : Transition}
      (hactive : s ∈ i.configuration.states) (htr : tr ∈ (i.tree.node s).declared) :
      Move i (i.shiftAlong tr)
  /-- A delay elapses whose timer was cancelled. -/
  | late (hs : i.status = .running) (hd : i.dropped = false) {id : TimerId}
      (hid : ∀ t ∈ i.timers, t.id ≠ id) :
      Move i ((i.note (.dequeued (.timer id))).note (.timerWasCancelled id))
  | ring (hs : i.status = .running) (hd : i.dropped = false) {t : Timer} {delay : Delay}
      (ht : t ∈ i.timers) (hactive : t.state ∈ i.configuration.states)
      (hdelay : (i.tree.node t.state).after[t.index]? = some delay) :
      Move i ((i.expire t.id).shiftAlong delay.transition)
  /-- A delay elapses for nothing. -/
  | lapse (hs : i.status = .running) (hd : i.dropped = false) {t : Timer} (ht : t ∈ i.timers)
      (hvoid : t.state ∉ i.configuration.states ∨
        (i.tree.node t.state).after[t.index]? = none) : Move i (i.expire t.id)
  | halt (hs : i.status = .running) (hd : i.dropped = false) :
      Move i (i.shift i.configuration.innermostFirst [] .empty .stopped)
  | refrain (hs : i.status = .notStarted) (hd : i.dropped = false) :
      Move i { i with status := .stopped }

theorem Move.dropped {i j : Interpreter C} (h : Move i j) : j.dropped = i.dropped := by
  cases h with
  | aside h => exact h.dropped
  | launch => exact shift_dropped ..
  | take => exact shift_dropped ..
  | ring => exact shift_dropped ..
  | halt => exact shift_dropped ..
  | _ => rfl

/-- A number of moves. -/
abbrev Moves : Interpreter C → Interpreter C → Prop := Relation.ReflTransGen Move

theorem Moves.dropped {i j : Interpreter C} (h : Moves i j) : j.dropped = i.dropped := by
  induction h with
  | refl => rfl
  | tail _ hmove ih => exact hmove.dropped.trans ih

theorem Alike.moves {i j : Interpreter C} (h : Alike i j) : Moves i j := .single (.aside h)

theorem take_moves (i : Interpreter C) (tr : Transition) (event : Event) :
    Moves (i.shiftAlong tr) (i.take tr event).1 := by
  rw [take_eq]
  exact (alike_react _ rfl _ _ _).moves

theorem stop_moves {i : Interpreter C} (hd : i.dropped = false) : Moves i i.stop.1 := by
  cases hs : i.status with
  | stopped =>
    rw [stop_eq_of_stopped hs]
  | notStarted =>
    rw [stop_eq_of_notStarted hs]
    refine .trans (.single (.refrain hs hd)) (Alike.moves ?_)
    exact (alike_discard _).trans ((alike_note _ rfl).trans (alike_notify _))
  | running =>
    rw [stop_eq hs]
    refine .trans (.single (.halt hs hd)) (Alike.moves ?_)
    exact (alike_discard _).trans (alike_react _ rfl _ _ _)

theorem processEvent_moves {i : Interpreter C} (hs : i.status = .running) (hd : i.dropped = false)
    (event : Event) (origin : Option InvocationId) :
    Moves i (i.processEvent event origin).1 := by
  unfold processEvent
  split
  -- The event comes from an invocation that runs no more.
  · exact (alike_note i rfl).moves
  · split
    case h_1 tr htr =>
      obtain ⟨s, hactive, hdeclared⟩ := StateTree.exists_of_select htr
      exact .trans (.single (.take hs hd hactive hdeclared)) (take_moves i tr event)
    case h_2 => exact (alike_note i rfl).moves

theorem processTimer_of_missing {i : Interpreter C} {id : TimerId}
    (hfind : i.timers.find? (fun t => t.id == id) = none) :
    i.processTimer id = (i.note (.timerWasCancelled id), none) := by
  simp only [processTimer, hfind]

theorem processTimer_of_armed {i : Interpreter C} {id : TimerId} {t : Timer} {delay : Delay}
    (hfind : i.timers.find? (fun t => t.id == id) = some t)
    (hactive : t.state ∈ i.configuration.states)
    (hdelay : (i.tree.node t.state).after[t.index]? = some delay) :
    i.processTimer id = { i with timers := i.timers.filter fun u => u.id != id }.take
      delay.transition (.named delay.event) := by
  have hcontains : i.configuration.contains t.state = true := List.contains_iff_mem.mpr hactive
  have hdelay : ({ i with timers := i.timers.filter fun u => u.id != id }.tree.node
    t.state).after[t.index]? = some delay := hdelay
  simp only [processTimer, hfind, hcontains, if_true, hdelay]

theorem processTimer_moves {i : Interpreter C} (hs : i.status = .running)
    (hd : i.dropped = false) (id : TimerId) :
    Moves i ((i.note (.dequeued (.timer id))).processTimer id).1 := by
  cases hfind : (i.note (.dequeued (.timer id))).timers.find? fun t => t.id == id with
  | none =>
    have hid : ∀ t ∈ i.timers, t.id ≠ id := by simpa [note] using List.find?_eq_none.mp hfind
    rw [processTimer_of_missing hfind]
    exact .single (.late hs hd hid)
  | some t =>
    have ht : t ∈ i.timers := List.mem_of_find?_eq_some hfind
    obtain rfl : t.id = id := by simpa using List.find?_some hfind
    simp only [processTimer, hfind]
    split
    case isTrue hactive =>
      have hactive : t.state ∈ i.configuration.states := List.contains_iff_mem.mp hactive
      split
      case h_1 delay hdelay =>
        exact .trans (.single (.ring hs hd ht hactive hdelay)) (take_moves _ delay.transition _)
      case h_2 hdelay => exact .single (.lapse hs hd ht (.inr hdelay))
    case isFalse hactive =>
      have hactive : t.state ∉ i.configuration.states := by
        intro h
        exact hactive (List.contains_iff_mem.mpr h)
      exact .trans (.single (.lapse hs hd ht (.inl hactive))) (alike_note _ rfl).moves

theorem process_moves {i : Interpreter C} (hs : i.status = .running) (hd : i.dropped = false)
    (e : Envelope) : Moves i ((i.note (.dequeued e)).process e).1 := by
  cases e with
  | event event origin =>
    have hnote := alike_note i (rfl : Entry.isDeed (.dequeued (.event event origin)) = false)
    exact .trans hnote.moves (processEvent_moves (i := i.note _) hs hd event origin)
  | timer id => exact processTimer_moves hs hd id
  | stop =>
    have hnote := alike_note i (rfl : Entry.isDeed (.dequeued .stop) = false)
    exact .trans hnote.moves (stop_moves hd)

/-- Take the next message out of the queue, which leaves `rest`. -/
def pull (i : Interpreter C) (e : Envelope) (rest : List Envelope) : Interpreter C :=
  { i.note (.dequeued e) with queue := rest }

/-- Take the next message out of the queue and process it. -/
def handle (i : Interpreter C) (e : Envelope) (rest : List Envelope) :
    Interpreter C × Option Fault :=
  (i.pull e rest).process e

theorem handle_moves {i : Interpreter C} (hs : i.status = .running) (hd : i.dropped = false)
    (e : Envelope) (rest : List Envelope) : Moves i (i.handle e rest).1 :=
  .trans (alike_aside i rest _ _ _ _ _).moves
    (process_moves (i := { i with queue := rest }) hs hd e)

theorem idle_or_busy (i : Interpreter C) :
    (i.status ≠ .running ∨ i.queue = []) ∨ ∃ e rest, i.status = .running ∧ i.queue = e :: rest := by
  by_cases hs : i.status = .running
  · cases hqueue : i.queue with
    | nil => exact .inl (.inr rfl)
    | cons e rest => exact .inr ⟨e, rest, hs, rfl⟩
  · exact .inl (.inl hs)

theorem drain_idle {i : Interpreter C} (h : i.status ≠ .running ∨ i.queue = []) (fuel : Nat) :
    i.drain fuel = (i, .done) := by
  cases fuel with
  | zero =>
    rw [drain, if_neg]
    tauto
  | succ fuel =>
    rw [drain]
    split
    case h_1 hs hqueue => exact absurd h (by simp [hs, hqueue])
    case h_2 => rfl

theorem drain_succ {i : Interpreter C} {e : Envelope} {rest : List Envelope}
    (hs : i.status = .running) (hqueue : i.queue = e :: rest) (fuel : Nat) :
    i.drain (fuel + 1) =
      match (i.handle e rest).2 with
      | some fault => ((i.handle e rest).1, .failed fault)
      | none => (i.handle e rest).1.drain fuel := by
  simp only [drain, hs, hqueue]
  cases hresult : i.handle e rest with
  | mk j fault =>
    rw [handle, pull] at hresult
    rw [hresult]
    cases fault <;> rfl

theorem drain_one {i : Interpreter C} {e : Envelope} {rest : List Envelope}
    (hs : i.status = .running) (hqueue : i.queue = e :: rest) :
    (i.drain 1).1 = (i.handle e rest).1 := by
  rw [drain_succ hs hqueue]
  cases hfault : (i.handle e rest).2 <;> rfl

theorem drain_moves (fuel : Nat) {i : Interpreter C} (hd : i.dropped = false) :
    Moves i (i.drain fuel).1 := by
  induction fuel generalizing i with
  | zero => exact .refl
  | succ fuel ih =>
    rcases i.idle_or_busy with hidle | ⟨e, rest, hs, hqueue⟩
    · rw [drain_idle hidle]
    · have hhandle := handle_moves hs hd e rest
      rw [drain_succ hs hqueue]
      split
      · exact hhandle
      · exact .trans hhandle (ih (hhandle.dropped.trans hd))

theorem launch_moves {i : Interpreter C} (hs : i.status = .notStarted) (hd : i.dropped = false)
    (hclock : i.Clocked) : Moves i i.launch.1 :=
  .trans (.single (.launch hs hd hclock)) (alike_react _ rfl _ _ _).moves

theorem start_moves (fuel : Nat) {i : Interpreter C} (hd : i.dropped = false) :
    Moves i (i.start fuel).1 := by
  cases hs : i.status with
  | running =>
    simp only [start, hs]
    exact .refl
  | stopped =>
    simp only [start, hs]
    exact .refl
  | notStarted =>
    by_cases hclock : i.Clocked
    · have hlaunch := launch_moves hs hd hclock
      rw [start_eq fuel hs hclock]
      split
      · exact hlaunch
      · exact .trans hlaunch (drain_moves fuel (hlaunch.dropped.trans hd))
    · rw [start_refused hs hclock]

theorem send_moves (fuel : Nat) {i : Interpreter C} (hd : i.dropped = false) (event : Event) :
    Moves i (i.send fuel event).1 := by
  unfold send
  split
  · exact (alike_note i rfl).moves
  · have h : Alike i (i.enqueue (.event event none)) :=
      (alike_note i (rfl : Entry.isDeed (.enqueued (.event event none)) = false)).trans
        (alike_aside _ _ _ _ _ _ _)
    exact .trans h.moves (drain_moves fuel hd)

theorem next_moves (fuel : Nat) {i : Interpreter C} (hd : i.dropped = false) :
    Moves i (i.next fuel).1 := by
  cases hs : i.status with
  | notStarted =>
    simp only [next, hs]
    exact .refl
  | stopped =>
    simp only [next, hs]
    exact .refl
  | running =>
    simp only [next, hs]
    split
    · exact .refl
    · exact drain_moves fuel hd

end Interpreter

end Statechart
