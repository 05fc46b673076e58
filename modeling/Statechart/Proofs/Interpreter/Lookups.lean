import Statechart.Proofs.Interpreter.Staleness
import Statechart.Proofs.Interpreter.Tables
import Statechart.Proofs.Step.Lookups

/-!
# Lookups along a run

A machine looks up states, actions and services by number, and the delay of a timer by its index.
Where there is nothing of a number the interpreter goes on with a default. The interpreter here does
not (`perform?`): it comes to nothing as soon as a number is out of range, when a transition is to
be taken whose source is not active, or when a delay elapses in a state that is not active. The
machine of a definition has all that its nodes refer to, and what an interpreter holds belongs to
its active states, so the two do the same along every run (`Reachable.nothing_missing`).
-/

namespace Statechart

namespace Interpreter

variable {C : Type}

/-! ### Without defaults -/

def value? (i : Interpreter C) : Option (List String) :=
  i.tree.fields? Node.key (i.configuration.states.drop 1)

/-- The ids of the active states. -/
def ids? (i : Interpreter C) : Option (List String) :=
  i.tree.fields? Node.id i.configuration.states

def snapshot? (i : Interpreter C) : Option (Snapshot C) := do
  return ⟨← i.value?, i.context, i.status, i.lastEvent⟩

def can? (i : Interpreter C) (event : String) : Option Bool :=
  if i.status == .running then do return (← i.tree.select? i.configuration event).isSome
  else some false

def runningInvocations? (i : Interpreter C) : Option (List (String × String)) :=
  i.invocations.mapM fun v => (i.tree.node? v.state).map fun n => (n.id, v.id)

def armedTimers? (i : Interpreter C) : Option (List (String × Nat)) :=
  i.timers.mapM fun t => (i.tree.node? t.state).map fun n => (n.id, t.millis)

/-- Start an invocation, the service of which must be there. -/
def startInvocation? (s : StateId) (i : Interpreter C) (v : Invoke) : Option (Interpreter C) :=
  if i.machine.HasService v.service then some (i.startInvocation s v) else none

def enter? (i : Interpreter C) (s : StateId) : Option (Interpreter C) := do
  let node ← i.tree.node? s
  let i ← node.invoke.foldlM (startInvocation? s) i
  return node.after.zipIdx.foldl (armTimer s) i

def enterAll? (i : Interpreter C) (states : List StateId) : Option (Interpreter C) :=
  states.foldlM enter? i

/-- Run actions, all of which must be there. -/
def runActions? (event : Event) (i : Interpreter C) (actions : List ActionId) :
    Option (Interpreter C × Option Fault) :=
  if ∀ a ∈ actions, i.machine.HasAction a then some (i.runActions event actions) else none

def notify? (i : Interpreter C) : Option (Interpreter C) := do
  let snapshot ← i.snapshot?
  return i.observers.foldl (present snapshot) i

/-- Let the host react; what is remembered is looked up after the actions. -/
def react? (i : Interpreter C) (e : Entry C) (event : Event) (actions : List ActionId)
    (remember : Interpreter C → Option History) : Option (Interpreter C × Option Fault) := do
  let (i, fault) ← (i.note e).runActions? event actions
  let i ← { i with history := ← remember i, lastEvent := some event }.notify?
  return (i, fault)

/-- Leave states and enter others. Leaving them looks nothing up. -/
def shift? (i : Interpreter C) (exit entry : List StateId) (c : Configuration) (status : Status) :
    Option (Interpreter C) :=
  { i.leaveAll exit with configuration := c, status }.enterAll? entry

def take? (i : Interpreter C) (transition : Transition) (event : Event) :
    Option (Interpreter C × Option Fault) := do
  let step ← i.tree.plan? i.configuration transition
  let source ← i.ids?
  let i ← i.shift? step.exit step.entry step.configuration i.status
  let node ← i.tree.node? step.source
  let value ← i.value?
  i.react? (.taken event.name node.id value step.exit.length step.entry.length) event step.actions
    fun i => do
      return i.history.record ⟨event.name, source.drop 1, (← i.ids?).drop 1, i.now⟩

def stop? (i : Interpreter C) : Option (Interpreter C × Option Fault) :=
  match i.status with
  | .stopped => some (i, none)
  | .notStarted => do
    let i := { i with status := .stopped }.discard
    return (← (i.note .stoppedUnstarted).notify?, none)
  | .running => do
    let exited := i.configuration.innermostFirst
    let actions ← i.tree.fields? Node.exit exited
    let i ← i.shift? exited [] .empty .stopped
    i.discard.react? .stopped .stop actions.flatten fun i => some i.history

def processEvent? (i : Interpreter C) (event : Event) (origin : Option InvocationId) :
    Option (Interpreter C × Option Fault) :=
  match origin.filter fun o => !i.isLive o with
  | some gone => some (i.note (.stale event.name gone), none)
  | none => do
    match ← i.tree.select? i.configuration event.name with
    | some transition => i.take? transition event
    | none => return (i.note (.unhandled event.name (← i.value?)), none)

/-- Process an elapsed delay. Its state must be active, and have a delay at the index. -/
def processTimer? (i : Interpreter C) (id : TimerId) : Option (Interpreter C × Option Fault) :=
  match i.timers.find? fun t => t.id == id with
  | none => some (i.note (.timerWasCancelled id), none)
  | some t => do
    let i := { i with timers := i.timers.filter fun u => u.id != id }
    if i.configuration.contains t.state then
      let node ← i.tree.node? t.state
      let delay ← node.after[t.index]?
      i.take? delay.transition (.named delay.event)
    else none

def process? (i : Interpreter C) : Envelope → Option (Interpreter C × Option Fault)
  | .event event origin => i.processEvent? event origin
  | .timer id => i.processTimer? id
  | .stop => i.stop?

def drain? : Nat → Interpreter C → Option (Interpreter C × Outcome)
  | 0, i => some (i.drain 0)
  | fuel + 1, i =>
    match i.status, i.queue with
    | .running, e :: rest => do
      match ← (i.pull e rest).process? e with
      | (i, some fault) => return (i, .failed fault)
      | (i, none) => drain? fuel i
    | _, _ => some (i, .done)

def launch? (i : Interpreter C) : Option (Interpreter C × Option Fault) := do
  let first ← i.tree.descend? i.tree.size i.tree.root
  let actions ← i.tree.fields? Node.entry first
  let i ← i.shift? [] first ⟨first⟩ .running
  i.react? (.started (← i.value?)) .init actions.flatten fun i => some i.history

def start? (fuel : Nat) (i : Interpreter C) : Option (Interpreter C × Outcome) :=
  match i.status with
  | .running => some (i, .done)
  | .stopped => some (i, .failed .terminated)
  | .notStarted =>
    if i.tree.hasDelays ∧ ¬ i.hasClock then some (i, .failed (.noClock i.tree.id))
    else do
      match ← i.launch? with
      | (i, some fault) => return (i, .failed fault)
      | (i, none) => i.drain? fuel

def send? (fuel : Nat) (i : Interpreter C) (event : Event) : Option (Interpreter C × Outcome) :=
  match i.status with
  | .stopped => some (i.note (.refused event.name), .done)
  | _ => (i.enqueue (.event event none)).drain? fuel

def next? (fuel : Nat) (i : Interpreter C) : Option (Interpreter C × Outcome) :=
  match i.status with
  | .notStarted => some (i, .failed .notStarted)
  | .stopped => some (i, .failed .terminated)
  | .running => if i.queue.isEmpty then some (i, .waiting) else i.drain? fuel

/-- Carry out a call. Those that only post messages, register observers or drop the interpreter look
nothing up. -/
def carryOut? (i : Interpreter C) : Call C → Option (Interpreter C)
  | .start fuel => (i.start? fuel).map Prod.fst
  | .send fuel event => (i.send? fuel event).map Prod.fst
  | .drain fuel => (i.drain? fuel).map Prod.fst
  | .next fuel => (i.next? fuel).map Prod.fst
  | .stop => i.stop?.map Prod.fst
  | c => some (i.carryOut c)

def perform? (i : Interpreter C) (c : Call C) : Option (Interpreter C) :=
  if i.dropped && !c.isRemote then some i else i.carryOut? c

/-! ### Nothing is missing -/

variable {i j : Interpreter C}

/-- The active states are in the tree. -/
def Placed (i : Interpreter C) : Prop := ∀ s ∈ i.configuration.states, s.index < i.tree.size

theorem Coherent.placed (hi : i.Coherent) : i.Placed := by
  by_cases hs : i.status = .running
  · obtain ⟨leaf, hleaf⟩ := hi.running hs
    exact hi.tree.known hleaf
  · intro s h
    rw [hi.nothing_active hs] at h
    cases h

theorem Placed.value?_eq (h : i.Placed) : i.value? = some i.value :=
  StateTree.fields?_eq Node.key fun s hs => h s (List.mem_of_mem_drop hs)

theorem Placed.ids?_eq (h : i.Placed) : i.ids? = some (i.configuration.ids i.tree) :=
  StateTree.fields?_eq Node.id h

theorem Placed.snapshot?_eq (h : i.Placed) : i.snapshot? = some i.snapshot := by
  rw [snapshot?, h.value?_eq]
  rfl

theorem Placed.can?_eq (h : i.Placed) (event : String) : i.can? event = some (i.can event) := by
  rw [can?, can, StateTree.select?_eq h]
  cases i.status == .running <;> rfl

theorem Placed.notify?_eq (h : i.Placed) : i.notify? = some i.notify := by
  rw [notify?, h.snapshot?_eq]
  rfl

theorem Coherent.runningInvocations?_eq (hi : i.Coherent) :
    i.runningInvocations? = some i.runningInvocations :=
  mapM_eq_some_map fun v hv => by
    rw [StateTree.node?_eq (hi.placed v.state (hi.state_mem_of_invocation hv)), Option.map_some]

theorem Coherent.armedTimers?_eq (hi : i.Coherent) : i.armedTimers? = some i.armedTimers :=
  mapM_eq_some_map fun t ht => by
    rw [StateTree.node?_eq (hi.placed t.state (hi.state_mem ht)), Option.map_some]

theorem enter?_eq (hm : i.machine.Complete) {s : StateId} (hs : s.index < i.tree.size) :
    i.enter? s = some (i.enter s) := by
  have hstart : (i.tree.node s).invoke.foldlM (startInvocation? s) i =
      some ((i.tree.node s).invoke.foldl (startInvocation s) i) := by
    refine foldlM_eq_some_foldl (fun j => j.machine = i.machine) (fun j hj v hv => ?_) rfl
    rw [startInvocation?, hj, if_pos (hm.services s v hv)]
    exact ⟨rfl, (sameShell_of_shell (shell_startInvocation s j v)).machine.trans hj⟩
  simp only [enter?, enter, StateTree.node?_eq hs, hstart, Option.bind_eq_bind, Option.bind_some,
    Option.pure_def]

theorem enterAll?_eq (hm : i.machine.Complete) {states : List StateId}
    (hstates : ∀ s ∈ states, s.index < i.tree.size) :
    i.enterAll? states = some (i.enterAll states) := by
  refine foldlM_eq_some_foldl (fun j => j.machine = i.machine) (fun j hj s hs => ?_) rfl
  have htree : j.tree = i.tree := congrArg Machine.tree hj
  rw [enter?_eq (hj ▸ hm) (htree ▸ hstates s hs)]
  exact ⟨rfl, (sameShell_of_shell (shell_enter j s)).machine.trans hj⟩

theorem runActions?_eq {event : Event} {actions : List ActionId}
    (h : ∀ a ∈ actions, i.machine.HasAction a) :
    i.runActions? event actions = some (i.runActions event actions) :=
  if_pos h

theorem shift?_eq (hm : i.machine.Complete) {exit entry : List StateId} {c : Configuration}
    {status : Status} (hentry : ∀ s ∈ entry, s.index < i.tree.size) :
    i.shift? exit entry c status = some (i.shift exit entry c status) := by
  have hshell := sameShell_leaveAll i exit
  exact enterAll?_eq (i := { i.leaveAll exit with configuration := c, status })
    (hshell.machine.symm ▸ hm) fun s hs => hshell.tree.symm ▸ hentry s hs

/-- The host reacts as it does, if the actions are there and what is remembered is. -/
theorem Placed.react?_eq (h : i.Placed) {e : Entry C} {event : Event} {actions : List ActionId}
    (hactions : ∀ a ∈ actions, i.machine.HasAction a)
    {remember? : Interpreter C → Option History} {remember : Interpreter C → History}
    (hremember : ∀ j : Interpreter C, j.machine = i.machine → j.Placed →
      remember? j = some (remember j)) :
    i.react? e event actions remember? = some (i.react e event actions remember) := by
  have hacted := sameBody_runActions event (i.note e) actions
  simp only [react?, react, runActions?_eq (i := i.note e) hactions, Option.bind_eq_bind,
    Option.bind_some]
  generalize (i.note e).runActions event actions = acted at hacted ⊢
  have hplaced : acted.1.Placed := by
    rw [Placed, hacted.configuration, hacted.tree]
    exact h
  have hshown : { acted.1 with
      history := remember acted.1, lastEvent := some event }.Placed := hplaced
  simp only [hremember _ hacted.1 hplaced, Option.bind_some, hshown.notify?_eq, Option.pure_def]

/-- **Taking a transition of an active state looks up nothing that is not there.** -/
theorem Coherent.take?_eq (hi : i.Coherent) (hm : i.machine.Complete) (hs : i.status = .running)
    {s : StateId} {tr : Transition} (hactive : s ∈ i.configuration.states)
    (htr : tr ∈ (i.tree.node s).declared) (event : Event) :
    i.take? tr event = some (i.take tr event) := by
  obtain ⟨leaf, hleaf⟩ := hi.running hs
  obtain ⟨kept, leaf', hspliced⟩ := hi.tree.plan_splice hleaf hactive htr
  have hafter := hi.tree.known hspliced.endsAt
  have hentry : ∀ s ∈ (i.tree.plan i.configuration tr).entry, s.index < i.tree.size := fun s hs =>
    hafter s (hspliced.after ▸ List.mem_append_right _ hs)
  have hsource : (i.tree.plan i.configuration tr).source = s := by
    rw [← hi.tree.source s tr htr, StateTree.plan]
    cases tr.target <;> rfl
  have htree : (i.shiftAlong tr).tree = i.tree := shift_tree ..
  have hplaced : (i.shiftAlong tr).Placed := by
    rw [Placed, htree, Interpreter.shiftAlong, shift_configuration]
    exact hafter
  have hnode : (i.shiftAlong tr).tree.node? (i.tree.plan i.configuration tr).source =
      some (i.tree.node (i.tree.plan i.configuration tr).source) := by
    rw [htree, hsource, StateTree.node?_eq (hi.placed s hactive)]
  have hactions : ∀ a ∈ (i.tree.plan i.configuration tr).actions,
      (i.shiftAlong tr).machine.HasAction a := (shift_machine i ..).symm ▸ hm.step_actions htr
  have hshift : i.shift? (i.tree.plan i.configuration tr).exit
      (i.tree.plan i.configuration tr).entry (i.tree.plan i.configuration tr).configuration
      i.status = some (i.shiftAlong tr) := shift?_eq hm hentry
  simp only [take?, hi.tree.plan?_eq hleaf hactive htr, hi.placed.ids?_eq, hshift, hnode,
    hplaced.value?_eq, Option.bind_eq_bind, Option.bind_some]
  rw [take_eq]
  refine hplaced.react?_eq hactions fun j hmachine hj => ?_
  have hj' : j.tree = i.tree := (congrArg Machine.tree hmachine).trans htree
  rw [hj.ids?_eq, hj']
  rfl

theorem Coherent.stop?_eq (hi : i.Coherent) (hm : i.machine.Complete) :
    i.stop? = some i.stop := by
  cases hs : i.status with
  | stopped => simp only [stop?, stop, hs]
  | notStarted =>
    have hplaced : ({ i with status := .stopped }.discard.note .stoppedUnstarted).Placed :=
      hi.placed
    simp only [stop?, stop, hs, hplaced.notify?_eq, Option.bind_eq_bind, Option.bind_some,
      Option.pure_def]
  | running =>
    have hactive : ∀ s ∈ i.configuration.innermostFirst, s.index < i.tree.size := fun s hs =>
      hi.placed s (List.mem_reverse.mp hs)
    have hmachine : (i.shift i.configuration.innermostFirst [] .empty .stopped).discard.machine =
        i.machine := shift_machine ..
    have hplaced : (i.shift i.configuration.innermostFirst [] .empty .stopped).discard.Placed := by
      simp [Placed, discard, note, Configuration.empty]
    have hshift : i.shift? i.configuration.innermostFirst [] .empty .stopped =
        some (i.shift i.configuration.innermostFirst [] .empty .stopped) :=
      shift?_eq hm (List.forall_mem_nil _)
    rw [stop_eq hs]
    simp only [stop?, hs, StateTree.fields?_eq Node.exit hactive, ← List.flatMap_def, hshift,
      Option.bind_eq_bind, Option.bind_some]
    exact hplaced.react?_eq (hmachine ▸ hm.exit) fun j _ _ => rfl

theorem Coherent.launch?_eq (hi : i.Coherent) (hm : i.machine.Complete) :
    i.launch? = some i.launch := by
  have hfirst : i.tree.descend? i.tree.size i.tree.root = some (i.tree.initialPath i.tree.root) :=
    hi.tree.descend?_eq hi.tree.nonempty (by omega)
  have hknown : ∀ s ∈ i.tree.initialPath i.tree.root, s.index < i.tree.size :=
    hi.tree.known hi.tree.endsAt_initial
  have htree : (i.shift [] (i.tree.initialPath i.tree.root) (.initial i.tree) .running).tree =
      i.tree := shift_tree ..
  have hplaced :
      (i.shift [] (i.tree.initialPath i.tree.root) (.initial i.tree) .running).Placed := by
    rw [Placed, shift_configuration, htree]
    exact hknown
  have hshift : i.shift? [] (i.tree.initialPath i.tree.root) ⟨i.tree.initialPath i.tree.root⟩
      .running = some (i.shift [] (i.tree.initialPath i.tree.root) (.initial i.tree) .running) :=
    shift?_eq hm hknown
  simp only [launch?, hfirst, StateTree.fields?_eq Node.entry hknown, hshift, hplaced.value?_eq,
    ← List.flatMap_def, Option.bind_eq_bind, Option.bind_some]
  exact hplaced.react?_eq ((shift_machine i ..).symm ▸ hm.entry) fun j _ _ => rfl

/-! ### Messages -/

theorem Coherent.processEvent?_eq (hi : i.Coherent) (hm : i.machine.Complete)
    (hs : i.status = .running) (event : Event) (origin : Option InvocationId) :
    i.processEvent? event origin = some (i.processEvent event origin) := by
  rw [processEvent?, processEvent]
  cases origin.filter fun o => !i.isLive o with
  | some gone => rfl
  | none =>
    simp only [StateTree.select?_eq hi.placed, Option.bind_eq_bind, Option.bind_some]
    cases hselect : i.tree.select i.configuration event.name with
    | none => simp only [hi.placed.value?_eq, Option.bind_some, Option.pure_def]
    | some tr =>
      obtain ⟨s, hactive, htr⟩ := StateTree.exists_of_select hselect
      exact hi.take?_eq hm hs hactive htr event

/-- The state of a timer that is still armed is active, and has a delay at the index. -/
theorem Coherent.processTimer?_eq (hi : i.Coherent) (hm : i.machine.Complete)
    (hs : i.status = .running) (id : TimerId) :
    i.processTimer? id = some (i.processTimer id) := by
  cases hfind : i.timers.find? fun t => t.id == id with
  | none => rw [processTimer?, hfind, processTimer_of_missing hfind]
  | some t =>
    have ht : t ∈ i.timers := List.mem_of_find?_eq_some hfind
    obtain ⟨hactive, delay, hdelay, -⟩ :=
      StateTree.mem_delayKeys.mp (hi.timers.subset (List.mem_map_of_mem ht))
    have hexpired := hi.expire id
    have hfired : { i with timers := i.timers.filter fun u => u.id != id }.Coherent :=
      { hexpired with numbered := ⟨hexpired.numbered.invocations, hexpired.numbered.timers⟩ }
    have hcontains : i.configuration.contains t.state = true := List.contains_iff_mem.mpr hactive
    have hnode : { i with timers := i.timers.filter fun u => u.id != id }.tree.node? t.state =
        some (i.tree.node t.state) := StateTree.node?_eq (hi.placed t.state hactive)
    have hafter : (i.tree.node t.state).after[t.index]? = some delay := hdelay
    rw [processTimer_of_armed hfind hactive hdelay, processTimer?, hfind]
    simp only [hcontains, if_true, hnode, hafter, Option.bind_eq_bind, Option.bind_some]
    exact hfired.take?_eq hm hs hactive (mem_declared_of_after hdelay) _

/-- **No message leads out of the tables.** -/
theorem Coherent.process?_eq (hi : i.Coherent) (hm : i.machine.Complete)
    (hs : i.status = .running) (e : Envelope) (rest : List Envelope) :
    (i.pull e rest).process? e = some (i.handle e rest) := by
  have hpulled := hi.pull e rest
  cases e with
  | event event origin => exact hpulled.processEvent?_eq hm hs event origin
  | timer id => exact hpulled.processTimer?_eq hm hs id
  | stop => exact hpulled.stop?_eq hm

theorem Coherent.drain?_eq (hi : i.Coherent) (hm : i.machine.Complete) (hd : i.dropped = false)
    (fuel : Nat) : i.drain? fuel = some (i.drain fuel) := by
  induction fuel generalizing i with
  | zero => rfl
  | succ fuel ih =>
    rcases i.idle_or_busy with hidle | ⟨e, rest, hs, hqueue⟩
    · rw [drain_idle hidle, drain?]
      split
      case h_1 hs hqueue => exact absurd hidle (by simp [hs, hqueue])
      case h_2 => rfl
    · have hround : Round i (i.handle e rest).1 := .handle hs hd hqueue
      have hlater := ih (hround.coherent hi) (hround.machine.symm ▸ hm)
        (handle_dropped i hs hd e rest)
      rw [drain_succ hs hqueue, drain?]
      simp only [hs, hqueue, hi.process?_eq hm hs, Option.bind_eq_bind, Option.bind_some]
      cases hresult : i.handle e rest with
      | mk j fault =>
        rw [hresult] at hlater
        cases fault with
        | some fault => rfl
        | none => exact hlater

/-! ### Calls -/

theorem Coherent.start?_eq (hi : i.Coherent) (hm : i.machine.Complete) (hd : i.dropped = false)
    (fuel : Nat) : i.start? fuel = some (i.start fuel) := by
  cases hs : i.status with
  | running => simp only [start?, start, hs]
  | stopped => simp only [start?, start, hs]
  | notStarted =>
    by_cases hclock : i.Clocked
    · have h : ¬ (i.tree.hasDelays = true ∧ ¬ i.hasClock = true) := fun h => h.2 (hclock h.1)
      have hround : Round i i.launch.1 := .launch hs hd hclock
      have hlater := (hround.coherent hi).drain?_eq (hround.machine.symm ▸ hm)
        ((launch_moves hs hd hclock).dropped.trans hd) fuel
      simp only [start_eq fuel hs hclock, start?, hs, if_neg h, hi.launch?_eq hm,
        Option.bind_eq_bind, Option.bind_some]
      cases hresult : i.launch with
      | mk j fault =>
        rw [hresult] at hlater
        cases fault with
        | some fault => rfl
        | none => exact hlater
    · have h : i.tree.hasDelays = true ∧ ¬ i.hasClock = true := by
        simpa only [Clocked, Classical.not_imp] using hclock
      simp only [start_refused hs hclock, start?, hs, if_pos h]

theorem Coherent.send?_eq (hi : i.Coherent) (hm : i.machine.Complete) (hd : i.dropped = false)
    (fuel : Nat) (event : Event) : i.send? fuel event = some (i.send fuel event) := by
  have hround : Round i (i.enqueue (.event event none)) := .enqueue hd _
  have hlater := (hround.coherent hi).drain?_eq hm hd fuel
  cases hs : i.status with
  | stopped => simp only [send?, send, hs]
  | notStarted => simpa only [send?, send, hs] using hlater
  | running => simpa only [send?, send, hs] using hlater

theorem Coherent.next?_eq (hi : i.Coherent) (hm : i.machine.Complete) (hd : i.dropped = false)
    (fuel : Nat) : i.next? fuel = some (i.next fuel) := by
  cases hs : i.status with
  | notStarted => simp only [next?, next, hs]
  | stopped => simp only [next?, next, hs]
  | running =>
    simp only [next?, next, hs]
    split
    · rfl
    · exact hi.drain?_eq hm hd fuel

theorem Coherent.perform?_eq (hi : i.Coherent) (hm : i.machine.Complete) (c : Call C) :
    i.perform? c = some (i.perform c) := by
  rw [perform?, perform]
  split
  case isTrue => rfl
  case isFalse hkept =>
    cases hd : i.dropped with
    | true =>
      -- Only calls that do not need the interpreter are left.
      cases c <;> first | rfl | simp [hd, Call.isRemote] at hkept
    | false =>
      cases c with
      | start fuel => simp only [carryOut?, carryOut, hi.start?_eq hm hd, Option.map_some]
      | send fuel event => simp only [carryOut?, carryOut, hi.send?_eq hm hd, Option.map_some]
      | drain fuel => simp only [carryOut?, carryOut, hi.drain?_eq hm hd, Option.map_some]
      | next fuel => simp only [carryOut?, carryOut, hi.next?_eq hm hd, Option.map_some]
      | stop => simp only [carryOut?, carryOut, hi.stop?_eq hm, Option.map_some]
      | _ => rfl

/-! ### Runs -/

/-- The transition that a message leads to starts at an active state. -/
theorem Coherent.source_active (hi : i.Coherent) {e : Envelope} {tr : Transition} {event : Event}
    (h : i.choice? e = some (tr, event)) : tr.source ∈ i.configuration.states := by
  obtain ⟨s, hactive, htr⟩ := (hi.handle_of_some h []).1
  rw [hi.tree.source s tr htr]
  exact hactive

theorem Coherent.index_lt (hi : i.Coherent) {t : Timer} (ht : t ∈ i.timers) :
    t.index < (i.tree.node t.state).after.length := by
  obtain ⟨-, delay, hdelay, -⟩ :=
    StateTree.mem_delayKeys.mp (hi.timers.subset (List.mem_map_of_mem ht))
  exact (List.getElem?_eq_some_iff.mp hdelay).1

/-- **Nothing that is looked up along a run is missing.** Every call, and all that can be asked for
between calls, does without defaults: states, actions and services are in the tables, and delays
elapse in active states only. The transition that a message leads to starts at an active state, and
every timer that is armed is of an active state and of one of its delays. -/
theorem Reachable.nothing_missing {d : Definition} {host : Implementations C} {m : Machine C}
    (hm : Machine.build d host = .ok m) (hi : Reachable m i) :
    (∀ c, i.perform? c = some (i.perform c)) ∧
    (i.snapshot? = some i.snapshot ∧ (∀ event, i.can? event = some (i.can event)) ∧
      i.runningInvocations? = some i.runningInvocations ∧
      i.armedTimers? = some i.armedTimers) ∧
    (∀ e tr event, i.choice? e = some (tr, event) → tr.source ∈ i.configuration.states) ∧
    ∀ t ∈ i.timers, t.state ∈ i.configuration.states ∧
      t.index < (m.tree.node t.state).after.length := by
  have hcoherent := hi.coherent hm
  have hplaced := hcoherent.placed
  have hmachine : i.machine = m := hi.machine
  have htree : i.tree = m.tree := congrArg Machine.tree hmachine
  have hcomplete : i.machine.Complete := hmachine ▸ Machine.complete_of_build hm
  refine ⟨hcoherent.perform?_eq hcomplete, ⟨hplaced.snapshot?_eq, hplaced.can?_eq,
    hcoherent.runningInvocations?_eq, hcoherent.armedTimers?_eq⟩,
    fun _ _ _ => hcoherent.source_active, fun t ht => ⟨hcoherent.state_mem ht, ?_⟩⟩
  exact htree ▸ hcoherent.index_lt ht

end Interpreter

/-- The delay of a lamp that is on elapses where the lamp is on. -/
theorem lampOn_nothing_missing :
    lampOn.perform? (.elapse ⟨0⟩) = some (lampOn.perform (.elapse ⟨0⟩)) ∧
    lampOn.armedTimers? = some [("lamp.on", 50)] ∧
    ∀ t ∈ lampOn.timers, t.state ∈ lampOn.configuration.states := by
  obtain ⟨hcalls, ⟨-, -, -, harmed⟩, -, htimers⟩ :=
    Interpreter.Reachable.nothing_missing build_lamp reachable_lampOn
  have hshown : lampOn.armedTimers = [("lamp.on", 50)] := by decide +kernel
  exact ⟨hcalls _, hshown ▸ harmed, fun t ht => (htimers t ht).1⟩

end Statechart
