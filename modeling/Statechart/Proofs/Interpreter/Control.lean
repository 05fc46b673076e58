import Statechart.Proofs.Interpreter.Rounds

/-!
# Control

The control of an interpreter is all of it but its context, its actions, its observers, its journal
and its clock (`control`). If host code sends nothing (`Silent`), what it does makes no difference
to the control: two interpreters with the same control have the same control after every part of a
step, whichever of their actions fail (`Twin`).
-/

namespace Statechart

/-! ### Host code that sends nothing -/

/-- The action sends nothing. -/
def Action.Silent {C : Type} (a : Action C) : Prop := ∀ turn c event, a.signals turn c event = []

/-- The observer sends nothing. -/
def Observer.Silent {C : Type} (o : Observer C) : Prop := ∀ turn snapshot, o turn snapshot = []

/-- Nothing is sent when that is stopped. -/
def InvokeHandle.Silent (h : InvokeHandle Teardown) : Prop :=
  ∀ signals, h.pending = some (.callback signals) → signals = []

/-- The service sends nothing, neither when it is started nor when it is stopped. -/
def Service.Silent (s : Service) : Prop :=
  ∀ origin, (s origin).signals = [] ∧ (s origin).handle.Silent

/-- No action and no service of the machine sends anything. -/
structure Machine.Silent {C : Type} (m : Machine C) : Prop where
  actions : ∀ a, (m.action a).Silent
  services : ∀ s, (m.service s).Silent

/-! ### The control of an interpreter -/

/-- The machine without its actions. -/
def Machine.control {C : Type} (m : Machine C) : Machine Unit := ⟨m.tree, #[], m.services⟩

/-- The history without its times. -/
def History.untimed (h : History) : History :=
  { h with records := h.records.map fun r => { r with time := .epoch } }

theorem History.untimed_record (h : History) (r : Record) :
    (h.record r).untimed = h.untimed.record { r with time := .epoch } := by
  simp only [record, untimed, List.length_map]
  split
  · rfl
  · split
    · simp
    · simp

namespace Interpreter

variable {C D : Type} {i : Interpreter C} {j : Interpreter D}

/-- All of an interpreter but its context, its actions, its observers, its journal and its clock. -/
def control (i : Interpreter C) : Interpreter Unit where
  machine := i.machine.control
  context := ()
  configuration := i.configuration
  status := i.status
  queue := i.queue
  invocations := i.invocations
  emitters := i.emitters
  timers := i.timers
  nextTimer := i.nextTimer
  hasClock := i.hasClock
  observers := []
  nextSubscription := 0
  history := i.history.untimed
  lastEvent := i.lastEvent
  now := .epoch
  dropped := i.dropped
  journal := #[]

/-- No host code that the interpreter may call sends anything. -/
structure Silent (i : Interpreter C) : Prop where
  machine : i.machine.Silent
  invocations : ∀ v ∈ i.invocations, v.handle.Silent
  observers : ∀ o ∈ i.observers, o.2.Silent

theorem Silent.of_frame {k : Interpreter C} (hi : i.Silent) (hmachine : k.machine = i.machine)
    (hinvocations : ∀ v ∈ k.invocations, v ∈ i.invocations)
    (hobservers : k.observers = i.observers) : k.Silent where
  machine := hmachine ▸ hi.machine
  invocations v hv := hi.invocations v (hinvocations v hv)
  observers := hobservers ▸ hi.observers

/-- The control is altered by `f`, and the host code stays what it is. -/
structure Altered (f : Interpreter Unit → Interpreter Unit) (i k : Interpreter C) : Prop where
  control : k.control = f i.control
  machine : k.machine = i.machine
  invocations : k.invocations = i.invocations
  observers : k.observers = i.observers

/-- **The control of both is the same**, and their host code sends nothing. -/
structure Twin (i : Interpreter C) (j : Interpreter D) : Prop where
  control : i.control = j.control
  left : i.Silent
  right : j.Silent

namespace Twin

variable (h : Twin i j)

include h

theorem tree : i.tree = j.tree := congrArg (fun c => c.machine.tree) h.control

theorem configuration : i.configuration = j.configuration :=
  congrArg Interpreter.configuration h.control

theorem status : i.status = j.status := congrArg Interpreter.status h.control

theorem queue : i.queue = j.queue := congrArg Interpreter.queue h.control

theorem invocations : i.invocations = j.invocations := congrArg Interpreter.invocations h.control

theorem emitters : i.emitters = j.emitters := congrArg Interpreter.emitters h.control

theorem timers : i.timers = j.timers := congrArg Interpreter.timers h.control

theorem nextTimer : i.nextTimer = j.nextTimer := congrArg Interpreter.nextTimer h.control

theorem hasClock : i.hasClock = j.hasClock := congrArg Interpreter.hasClock h.control

theorem history : i.history.untimed = j.history.untimed := congrArg Interpreter.history h.control

theorem dropped : i.dropped = j.dropped := congrArg Interpreter.dropped h.control

theorem isLive : i.isLive = j.isLive := by
  funext origin
  rw [Interpreter.isLive, Interpreter.isLive, h.invocations]

theorem isAlive : i.isAlive = j.isAlive := by
  funext origin
  rw [Interpreter.isAlive, Interpreter.isAlive, h.dropped, h.emitters]

theorem service (s : ServiceId) : i.machine.service s = j.machine.service s :=
  congrArg (fun c : Interpreter Unit => c.machine.service s) h.control

omit h

/-- What each step of a fold keeps the whole fold keeps. -/
theorem foldl {α : Type} {f : Interpreter C → α → Interpreter C}
    {g : Interpreter D → α → Interpreter D} {l : List α} (h : Twin i j)
    (hstep : ∀ i j, Twin i j → ∀ a ∈ l, Twin (f i a) (g j a)) :
    Twin (l.foldl f i) (l.foldl g j) := by
  induction l generalizing i j with
  | nil => exact h
  | cons a rest ih =>
    refine ih (hstep i j h a List.mem_cons_self) ?_
    exact fun i j h b hb => hstep i j h b (List.mem_cons_of_mem a hb)

/-- **What alters the control of both in the same way keeps them twins.** -/
theorem alter {k : Interpreter C} {l : Interpreter D} (h : Twin i j)
    (f : Interpreter Unit → Interpreter Unit) (hk : Altered f i k) (hl : Altered f j l) :
    Twin k l where
  control := by rw [hk.control, hl.control, h.control]
  left := h.left.of_frame hk.machine (fun _ hv => hk.invocations ▸ hv) hk.observers
  right := h.right.of_frame hl.machine (fun _ hv => hl.invocations ▸ hv) hl.observers

theorem note (h : Twin i j) (e : Entry C) (f : Entry D) : Twin (i.note e) (j.note f) :=
  h.alter id ⟨rfl, rfl, rfl, rfl⟩ ⟨rfl, rfl, rfl, rfl⟩

theorem enqueue (h : Twin i j) (e : Envelope) : Twin (i.enqueue e) (j.enqueue e) :=
  h.alter (fun c => { c with queue := c.queue ++ [e] }) ⟨rfl, rfl, rfl, rfl⟩ ⟨rfl, rfl, rfl, rfl⟩

theorem discard (h : Twin i j) : Twin i.discard j.discard :=
  h.alter (fun c => { c with queue := [] }) ⟨rfl, rfl, rfl, rfl⟩ ⟨rfl, rfl, rfl, rfl⟩

end Twin

theorem control_note (i : Interpreter C) (e : Entry C) : (i.note e).control = i.control := rfl

/-! ### Leaving and entering -/

theorem partingSignals_of_silent {v : Invocation} (hv : v.handle.Silent) :
    partingSignals v = [] := by
  unfold partingSignals
  split
  case h_1 signals hpending => exact hv signals hpending
  case h_2 => rfl

theorem control_tearDown (i : Interpreter C) {v : Invocation} (hv : v.handle.Silent) :
    (i.tearDown v).control = i.control := by
  rw [tearDown_eq, partingSignals_of_silent hv]
  exact foldl_unchanged control control_note _ i

theorem control_stopInvocation (i : Interpreter C) {v : Invocation} (hv : v.handle.Silent) :
    (i.stopInvocation v).control =
      { i.control with
        invocations := i.control.invocations.filter fun w => w.origin != v.origin
        emitters := i.control.emitters.modify v.origin.number
          fun e => { e with alive := false } } := by
  rw [stopInvocation, control_tearDown _ hv]
  rfl

theorem Silent.stopInvocation (hi : i.Silent) (v : Invocation) : (i.stopInvocation v).Silent := by
  have hshell := sameShell_of_shell (shell_stopInvocation i v)
  refine hi.of_frame hshell.machine ?_ hshell.observers
  rw [(stopInvocation_holdings i v).invocations_eq]
  exact fun _ => List.mem_of_mem_filter

theorem control_startInvocation (hi : i.machine.Silent) (s : StateId) (v : Invoke) :
    (startInvocation s i v).control =
      { i.control with
        emitters := i.emitters.push ⟨i.tree.serviceName v.service, true⟩
        invocations := i.invocations ++ [i.machine.invocation i.emitters.size s v] } := by
  have hnone : (i.startup v).signals = [] := (hi.services v.service ⟨i.emitters.size⟩).1
  have hnotes (k : Interpreter C) : ((i.begunEntries s v).foldl Interpreter.note k).control =
      k.control := foldl_unchanged control control_note (i.begunEntries s v) k
  have hbegun : ((i.begunEntries s v).foldl Interpreter.note (i.announce v)).invocations =
      i.invocations :=
    congrArg (fun c : Interpreter Unit => c.invocations) (hnotes (i.announce v))
  rw [startInvocation_eq, hnone]
  simp only [deliver, List.foldl_nil]
  rw [hbegun]
  exact congrArg (fun c => { c with invocations := i.invocations ++
    [i.machine.invocation i.emitters.size s v] }) (hnotes (i.announce v))

theorem Silent.startInvocation (hi : i.Silent) (s : StateId) (v : Invoke) :
    (startInvocation s i v).Silent := by
  have hshell := sameShell_of_shell (shell_startInvocation s i v)
  refine ⟨hshell.machine ▸ hi.machine, ?_, hshell.observers ▸ hi.observers⟩
  rw [(startInvocation_holdings s i v).invocations_eq]
  intro w hw
  rcases List.mem_append.mp hw with hw | hw
  · exact hi.invocations w hw
  · rw [List.mem_singleton.mp hw]
    exact (hi.machine.services v.service ⟨i.emitters.size⟩).2

namespace Twin

theorem stopInvocation (h : Twin i j) {v : Invocation} (hv : v.handle.Silent) :
    Twin (i.stopInvocation v) (j.stopInvocation v) where
  control := by rw [control_stopInvocation i hv, control_stopInvocation j hv, h.control]
  left := h.left.stopInvocation v
  right := h.right.stopInvocation v

theorem cancelTimer (h : Twin i j) (t : Timer) : Twin (i.cancelTimer t) (j.cancelTimer t) :=
  h.alter (fun c => { c with timers := c.timers.filter fun u => u.id != t.id })
    ⟨rfl, rfl, rfl, rfl⟩ ⟨rfl, rfl, rfl, rfl⟩

theorem leave (h : Twin i j) (s : StateId) : Twin (i.leave s) (j.leave s) := by
  have hsilent : ∀ v ∈ (j.invocations.filter fun v => v.state == s).reverse, v.handle.Silent :=
    fun v hv => h.right.invocations v (List.mem_of_mem_filter (List.mem_reverse.mp hv))
  have hstopped : Twin (i.stopInvocations s) (j.stopInvocations s) := by
    rw [stopInvocations, stopInvocations, h.invocations]
    exact h.foldl fun _ _ h v hv => h.stopInvocation (hsilent v hv)
  rw [Interpreter.leave, Interpreter.leave, cancelTimers, cancelTimers, hstopped.timers]
  exact hstopped.foldl fun _ _ h t _ => h.cancelTimer t

theorem startInvocation (h : Twin i j) (s : StateId) (v : Invoke) :
    Twin (startInvocation s i v) (startInvocation s j v) where
  control := by
    have hservice : i.machine.invocation i.emitters.size s v =
        j.machine.invocation j.emitters.size s v := by
      rw [Machine.invocation, Machine.invocation, h.service, h.emitters]
      exact congrArg (fun t : StateTree =>
        Invocation.mk _ s v.id (t.serviceName v.service) _) h.tree
    rw [control_startInvocation h.left.machine, control_startInvocation h.right.machine, hservice,
      h.control, h.tree, h.emitters, h.invocations]
  left := h.left.startInvocation s v
  right := h.right.startInvocation s v

theorem armTimer (h : Twin i j) (s : StateId) (delay : Delay × Nat) :
    Twin (armTimer s i delay) (armTimer s j delay) := by
  rw [Interpreter.armTimer, Interpreter.armTimer, h.hasClock, h.nextTimer]
  split
  · let t : Timer := ⟨⟨j.nextTimer⟩, s, delay.2, delay.1.millis⟩
    exact h.alter (fun c => { c with timers := c.timers ++ [t], nextTimer := j.nextTimer + 1 })
      ⟨rfl, rfl, rfl, rfl⟩ ⟨rfl, rfl, rfl, rfl⟩
  · exact h.note _ _

theorem enter (h : Twin i j) (s : StateId) : Twin (i.enter s) (j.enter s) := by
  rw [Interpreter.enter, Interpreter.enter, h.tree]
  apply Twin.foldl
  · exact h.foldl fun _ _ h v _ => h.startInvocation s v
  · exact fun _ _ h delay _ => h.armTimer s delay

/-- **A shift comes to the same for both.** -/
theorem shift (h : Twin i j) (exit entry : List StateId) (c : Configuration) (status : Status) :
    Twin (i.shift exit entry c status) (j.shift exit entry c status) := by
  have hleft : Twin (i.leaveAll exit) (j.leaveAll exit) := h.foldl fun _ _ h s _ => h.leave s
  have hmoved : Twin { i.leaveAll exit with configuration := c, status }
      { j.leaveAll exit with configuration := c, status } :=
    hleft.alter (fun k => { k with configuration := c, status }) ⟨rfl, rfl, rfl, rfl⟩
      ⟨rfl, rfl, rfl, rfl⟩
  exact hmoved.foldl fun _ _ h s _ => h.enter s

end Twin

/-! ### Actions and observers -/

theorem control_runActions (hi : i.machine.Silent) (event : Event) (actions : List ActionId) :
    (i.runActions event actions).1.control = i.control := by
  induction actions generalizing i with
  | nil => rfl
  | cons a rest ih =>
    have hact : (i.act event a).control = i.control := by
      rw [act]
      simp only [hi.actions a _ _ _]
      rfl
    have hmachine : (i.act event a).machine = i.machine := (untouched_deliver _ _).machine
    rw [runActions_cons]
    split
    · rw [ih (hmachine ▸ hi), hact]
    · exact hact

theorem control_notify (hi : i.Silent) : i.notify.control = i.control := by
  have h (snapshot : Snapshot C) (l : List (Nat × Observer C)) (hl : ∀ o ∈ l, o.2.Silent)
      (k : Interpreter C) : (l.foldl (present snapshot) k).control = k.control := by
    induction l generalizing k with
    | nil => rfl
    | cons o rest ih =>
      obtain ⟨ho, hrest⟩ := List.forall_mem_cons.mp hl
      rw [List.foldl_cons, ih hrest, present]
      simp only [ho _ _]
      rfl
  exact h i.snapshot i.observers hi.observers i

/-- **The control does not depend on what the host makes of a step.** -/
theorem Silent.control_react (hi : i.Silent) (e : Entry C) (event : Event) (actions : List ActionId)
    (remember : Interpreter C → History) :
    (i.react e event actions remember).1.control =
      { i.control with
        history := (remember ((i.note e).runActions event actions).1).untimed
        lastEvent := some event } ∧
    (i.react e event actions remember).1.Silent := by
  let acted := ((i.note e).runActions event actions).1
  let known : Interpreter C := { acted with history := remember acted, lastEvent := some event }
  have hacted := sameBody_runActions event (i.note e) actions
  have hknown : known.Silent := by
    refine hi.of_frame hacted.machine ?_ hacted.observers
    show ∀ v ∈ acted.invocations, v ∈ i.invocations
    rw [hacted.invocations]
    exact fun _ h => h
  constructor
  · have hcontrol : acted.control = i.control :=
      control_runActions (i := i.note e) hi.machine event actions
    refine (control_notify hknown).trans ?_
    exact congrArg
      (fun c => { c with history := (remember acted).untimed, lastEvent := some event }) hcontrol
  · have hshown := untouched_notify known
    refine hknown.of_frame hshown.machine ?_ hshown.observers
    show ∀ v ∈ known.notify.invocations, v ∈ known.invocations
    rw [hshown.invocations]
    exact fun _ h => h

theorem Twin.react (h : Twin i j) (e : Entry C) (f : Entry D) (event : Event)
    (actions : List ActionId) {remember : Interpreter C → History}
    {remember' : Interpreter D → History}
    (hremember : ∀ (i : Interpreter C) (j : Interpreter D), i.control = j.control →
      (remember i).untimed = (remember' j).untimed) :
    Twin (i.react e event actions remember).1 (j.react f event actions remember').1 := by
  obtain ⟨hi, hleft⟩ := h.left.control_react e event actions remember
  obtain ⟨hj, hright⟩ := h.right.control_react f event actions remember'
  refine ⟨?_, hleft, hright⟩
  rw [hi, hj, h.control, hremember]
  rw [control_runActions (i := i.note e) h.left.machine,
    control_runActions (i := j.note f) h.right.machine, control_note, control_note, h.control]

/-! ### Messages -/

theorem processTimer_of_inactive {id : TimerId} {t : Timer}
    (hfind : i.timers.find? (fun t => t.id == id) = some t)
    (hactive : t.state ∉ i.configuration.states) :
    i.processTimer id =
      ({ i with timers := i.timers.filter fun u => u.id != id }.note (.timerWasInactive id),
        none) := by
  have hcontains : ¬ i.configuration.contains t.state = true := fun h =>
    hactive (List.contains_iff_mem.mp h)
  simp only [processTimer, hfind, if_neg hcontains]

theorem processTimer_of_void {id : TimerId} {t : Timer}
    (hfind : i.timers.find? (fun t => t.id == id) = some t)
    (hactive : t.state ∈ i.configuration.states)
    (hdelay : (i.tree.node t.state).after[t.index]? = none) :
    i.processTimer id = ({ i with timers := i.timers.filter fun u => u.id != id }, none) := by
  have hcontains : i.configuration.contains t.state = true := List.contains_iff_mem.mpr hactive
  have hdelay : ({ i with timers := i.timers.filter fun u => u.id != id }.tree.node
    t.state).after[t.index]? = none := hdelay
  simp only [processTimer, hfind, if_pos hcontains, hdelay]

namespace Twin

/-- **A transition comes to the same for both**, whether or not its actions fail. -/
theorem take (h : Twin i j) (tr : Transition) (event : Event) :
    Twin (i.take tr event).1 (j.take tr event).1 := by
  have hshifted : Twin (i.shiftAlong tr) (j.shiftAlong tr) := by
    rw [shiftAlong, shiftAlong, h.tree, h.configuration, h.status]
    exact h.shift _ _ _ _
  rw [take_eq, take_eq, h.tree, h.configuration]
  apply hshifted.react
  intro i' j' hcontrol
  have hhistory : i'.history.untimed = j'.history.untimed :=
    congrArg Interpreter.history hcontrol
  have hconfiguration : i'.configuration = j'.configuration :=
    congrArg Interpreter.configuration hcontrol
  rw [History.untimed_record, History.untimed_record, hhistory, hconfiguration]

theorem launch (h : Twin i j) : Twin i.launch.1 j.launch.1 := by
  rw [Interpreter.launch, Interpreter.launch, h.tree]
  exact (h.shift _ _ _ _).react _ _ _ _ fun _ _ hcontrol =>
    congrArg Interpreter.history hcontrol

theorem notify (h : Twin i j) : Twin i.notify j.notify := by
  have hleft := untouched_notify i
  have hright := untouched_notify j
  constructor
  case control => rw [control_notify h.left, control_notify h.right, h.control]
  case left =>
    exact h.left.of_frame hleft.machine (fun v hv => hleft.invocations ▸ hv) hleft.observers
  case right =>
    exact h.right.of_frame hright.machine (fun v hv => hright.invocations ▸ hv) hright.observers

theorem stop (h : Twin i j) : Twin i.stop.1 j.stop.1 := by
  cases hs : j.status with
  | stopped =>
    simp only [Interpreter.stop, h.status, hs]
    exact h
  | notStarted =>
    have hover : Twin { i with status := .stopped } { j with status := .stopped } :=
      h.alter (fun c => { c with status := .stopped }) ⟨rfl, rfl, rfl, rfl⟩ ⟨rfl, rfl, rfl, rfl⟩
    simp only [Interpreter.stop, h.status, hs]
    exact (hover.discard.note _ _).notify
  | running =>
    rw [stop_eq (h.status.trans hs), stop_eq hs, h.configuration, h.tree]
    exact (h.shift _ _ _ _).discard.react _ _ _ _ fun _ _ hcontrol =>
      congrArg Interpreter.history hcontrol

theorem processEvent (h : Twin i j) (event : Event) (origin : Option InvocationId) :
    Twin (i.processEvent event origin).1 (j.processEvent event origin).1 := by
  simp only [Interpreter.processEvent, h.isLive, h.tree, h.configuration]
  cases origin.filter fun o => !j.isLive o with
  | some gone => exact h.note _ _
  | none =>
    cases j.tree.select j.configuration event.name with
    | some tr => exact h.take tr event
    | none => exact h.note _ _

theorem processTimer (h : Twin i j) (id : TimerId) :
    Twin (i.processTimer id).1 (j.processTimer id).1 := by
  have hdrawn : Twin { i with timers := i.timers.filter fun u => u.id != id }
      { j with timers := j.timers.filter fun u => u.id != id } :=
    h.alter (fun c => { c with timers := c.timers.filter fun u => u.id != id })
      ⟨rfl, rfl, rfl, rfl⟩ ⟨rfl, rfl, rfl, rfl⟩
  cases hfind : j.timers.find? fun t => t.id == id with
  | none =>
    rw [processTimer_of_missing (h.timers ▸ hfind), processTimer_of_missing hfind]
    exact h.note _ _
  | some t =>
    have hfind' : (i.timers.find? fun t => t.id == id) = some t := h.timers ▸ hfind
    by_cases hactive : t.state ∈ j.configuration.states
    · have hactive' : t.state ∈ i.configuration.states := h.configuration ▸ hactive
      cases hdelay : (j.tree.node t.state).after[t.index]? with
      | none =>
        rw [processTimer_of_void hfind' hactive' (h.tree ▸ hdelay),
          processTimer_of_void hfind hactive hdelay]
        exact hdrawn
      | some delay =>
        rw [processTimer_of_armed hfind' hactive' (h.tree ▸ hdelay),
          processTimer_of_armed hfind hactive hdelay]
        exact hdrawn.take _ _
    · have hactive' : t.state ∉ i.configuration.states := h.configuration ▸ hactive
      rw [processTimer_of_inactive hfind' hactive', processTimer_of_inactive hfind hactive]
      exact hdrawn.note _ _

/-- **A message comes to the same for both.** -/
theorem handle (h : Twin i j) (e : Envelope) (rest : List Envelope) :
    Twin (i.handle e rest).1 (j.handle e rest).1 := by
  have hpulled : Twin (i.pull e rest) (j.pull e rest) :=
    h.alter (fun c => { c with queue := rest }) ⟨rfl, rfl, rfl, rfl⟩ ⟨rfl, rfl, rfl, rfl⟩
  cases e with
  | event event origin => exact hpulled.processEvent event origin
  | timer id => exact hpulled.processTimer id
  | stop => exact hpulled.stop

end Twin

end Interpreter

end Statechart
