import Statechart.Interpreter.Run

/-!
# What host code cannot touch

While host code runs, messages reach the queue and the journal, and nothing else of an interpreter
changes (`still_deliver`). So actions change nothing beyond that but the context
(`sameBody_runActions`), observers nothing at all (`untouched_notify`), and leaving and entering
states nothing but the invocations, their emitters, and the timers (`sameShell_leaveAll`,
`sameShell_enterAll`).

A log is what a reader takes down of the journal. One that looks for deeds and calls of host code
only does not notice messages either (`log_deliver`).
-/

namespace Statechart

/-- The entry is about an invocation, a timer, or an elapsed delay. -/
def Entry.isDeed {C : Type} : Entry C → Bool
  | dequeued (.timer _) | timerWasCancelled _ => true
  | serviceCalled .. | taskSpawned .. | invocationStarted .. => true
  | invocationStopped .. | tornDown .. | taskAborted .. => true
  | timerArmed .. | timerCancelled .. | timerUnarmed .. => true
  | _ => false

/-- The entry is about an action or an observer that was called. -/
def Entry.isCall {C : Type} : Entry C → Bool
  | ran .. | observed .. => true
  | _ => false

/-- The entry is about a service: that it is called or stopped. -/
def Entry.isService {C : Type} : Entry C → Bool
  | serviceCalled .. | taskSpawned .. | invocationStarted .. => true
  | invocationStopped .. | tornDown .. | taskAborted .. => true
  | _ => false

/-- What no step of a fold changes the whole fold does not change. -/
theorem foldl_unchanged {α β γ : Type} {f : β → α → β} (g : β → γ)
    (h : ∀ b a, g (f b a) = g b) (l : List α) (b : β) : g (l.foldl f b) = g b := by
  induction l generalizing b with
  | nil => rfl
  | cons a rest ih => rw [List.foldl_cons, ih, h]

/-- The invocation of a state under the number `n`. -/
def Machine.invocation {C : Type} (m : Machine C) (n : Nat) (s : StateId) (v : Invoke) :
    Invocation :=
  ⟨⟨n⟩, s, v.id, m.tree.serviceName v.service, (m.service v.service ⟨n⟩).handle⟩

namespace Interpreter

variable {C : Type}

/-- The interpreter but for its queue and its journal. -/
def still (i : Interpreter C) : Interpreter C := { i with queue := [], journal := #[] }

/-- The interpreter but for its queue, its journal, its invocations and its timers. -/
def shell (i : Interpreter C) : Interpreter C :=
  { i.still with invocations := [], emitters := #[], timers := [], nextTimer := 0 }

/-- The machine is in the same place, with the same context, memory, clock and observers. -/
structure SameScene (i j : Interpreter C) : Prop where
  machine : j.machine = i.machine
  context : j.context = i.context
  configuration : j.configuration = i.configuration
  status : j.status = i.status
  hasClock : j.hasClock = i.hasClock
  observers : j.observers = i.observers
  history : j.history = i.history
  lastEvent : j.lastEvent = i.lastEvent

/-- The shells are the same, so `j` differs from `i` at most in what is held, in the queue and in
the journal. -/
structure SameShell (i j : Interpreter C) : Prop extends SameScene i j where
  dropped : j.dropped = i.dropped

/-- `j` differs from `i` at most in the context, in the queue and in the journal. -/
structure SameBody (i j : Interpreter C) : Prop where
  machine : j.machine = i.machine
  configuration : j.configuration = i.configuration
  status : j.status = i.status
  invocations : j.invocations = i.invocations
  emitters : j.emitters = i.emitters
  timers : j.timers = i.timers
  nextTimer : j.nextTimer = i.nextTimer
  hasClock : j.hasClock = i.hasClock
  observers : j.observers = i.observers
  history : j.history = i.history
  lastEvent : j.lastEvent = i.lastEvent
  dropped : j.dropped = i.dropped

/-- `j` differs from `i` at most in the queue and in the journal. -/
structure Untouched (i j : Interpreter C) : Prop extends SameShell i j, SameBody i j

theorem SameScene.tree {i j : Interpreter C} (h : SameScene i j) : j.tree = i.tree :=
  congrArg Machine.tree h.machine

theorem SameBody.tree {i j : Interpreter C} (h : SameBody i j) : j.tree = i.tree :=
  congrArg Machine.tree h.machine

theorem sameShell_of_shell {i j : Interpreter C} (h : j.shell = i.shell) : SameShell i j := by
  simp only [shell, still, mk.injEq] at h
  refine ⟨?_, ?_⟩
  case refine_1 => constructor <;> simp only [h]
  case refine_2 => simp only [h]

theorem sameBody_of_still {i j : Interpreter C} (c : C)
    (h : { j.still with context := c } = { i.still with context := c }) : SameBody i j := by
  simp only [still, mk.injEq] at h
  constructor <;> simp only [h]

theorem shell_eq_of_still {i j : Interpreter C} (h : i.still = j.still) : i.shell = j.shell := by
  unfold shell
  rw [h]

theorem untouched_of_still {i j : Interpreter C} (h : j.still = i.still) : Untouched i j :=
  have hbody : SameBody i j := sameBody_of_still i.context (by rw [h])
  { sameShell_of_shell (shell_eq_of_still h), hbody with }

/-- What is taken down of the journal. -/
def log {α : Type} (f : Entry C → Option α) (i : Interpreter C) : List α :=
  i.journal.toList.filterMap f

/-! ### Messages -/

@[simp] theorem still_note (i : Interpreter C) (e : Entry C) : (i.note e).still = i.still := rfl

@[simp] theorem still_enqueue (i : Interpreter C) (e : Envelope) :
    (i.enqueue e).still = i.still := rfl

@[simp] theorem still_post (i : Interpreter C) (e : Envelope) : (i.post e).still = i.still := by
  unfold post
  split <;> rfl

@[simp] theorem still_emit (i : Interpreter C) (origin : InvocationId) (event : Event) :
    (i.emit origin event).still = i.still := by
  unfold emit
  split <;> rfl

theorem still_signal (i : Interpreter C) (s : Signal) : (i.signal s).still = i.still := by
  cases s with
  | send event => simp [signal]
  | stop => simp [signal]
  | emit ref event =>
    simp only [signal]
    split <;> simp
  | elapse timer => simp [signal]

/-- **Messages change nothing but the queue and the journal.** -/
theorem still_deliver (i : Interpreter C) (signals : List Signal) :
    (i.deliver signals).still = i.still :=
  foldl_unchanged still still_signal signals i

theorem untouched_deliver (i : Interpreter C) (signals : List Signal) :
    Untouched i (i.deliver signals) :=
  untouched_of_still (still_deliver i signals)

/-! ### Logs -/

section Log

variable {α : Type} {f : Entry C → Option α}

@[simp] theorem log_note (i : Interpreter C) (e : Entry C) :
    (i.note e).log f = i.log f ++ (f e).toList := by
  cases h : f e <;> simp [log, note, h]

variable (hf : ∀ e : Entry C, e.isDeed = false → e.isCall = false → f e = none)

include hf

theorem log_remark (i : Interpreter C) {e : Entry C} (hdeed : e.isDeed = false)
    (hcall : e.isCall = false) : (i.note e).log f = i.log f := by
  rw [log_note, hf e hdeed hcall]
  simp

theorem log_enqueue (i : Interpreter C) (e : Envelope) : (i.enqueue e).log f = i.log f :=
  log_remark hf i rfl rfl

theorem log_post (i : Interpreter C) (e : Envelope) : (i.post e).log f = i.log f := by
  unfold post
  split
  · exact log_enqueue hf i e
  · rfl

theorem log_emit (i : Interpreter C) (origin : InvocationId) (event : Event) :
    (i.emit origin event).log f = i.log f := by
  unfold emit
  split
  · exact log_enqueue hf i _
  · rfl

theorem log_signal (i : Interpreter C) (s : Signal) : (i.signal s).log f = i.log f := by
  cases s with
  | send event => rw [signal, log_remark hf _ rfl rfl, log_post hf]
  | stop => rw [signal, log_remark hf _ rfl rfl, log_post hf]
  | emit ref event =>
    simp only [signal]
    split
    · exact log_remark hf i rfl rfl
    · rw [log_remark hf _ rfl rfl, log_emit hf]
  | elapse timer => exact log_post hf i _

theorem log_deliver (i : Interpreter C) (signals : List Signal) :
    (i.deliver signals).log f = i.log f :=
  foldl_unchanged (log f) (log_signal hf) signals i

end Log

/-! ### Leaving and entering -/

theorem shell_note (i : Interpreter C) (e : Entry C) : (i.note e).shell = i.shell := rfl

theorem shell_deliver (i : Interpreter C) (signals : List Signal) :
    (i.deliver signals).shell = i.shell :=
  shell_eq_of_still (still_deliver i signals)

/-- The entries on what is done when the handle of an invocation is stopped. -/
def tearDownEntries (v : Invocation) : List (Entry C) :=
  match v.handle.pending with
  | none => []
  | some .abort => [.taskAborted v.origin]
  | some (.callback _) => [.tornDown v.service v.origin]

theorem isService_of_mem_tearDownEntries {v : Invocation} {e : Entry C}
    (he : e ∈ tearDownEntries v) : e.isService = true := by
  unfold tearDownEntries at he
  split at he
  · cases he
  · rw [List.mem_singleton.mp he]
    rfl
  · rw [List.mem_singleton.mp he]
    rfl

/-- What is sent when the handle of an invocation is stopped. -/
def partingSignals (v : Invocation) : List Signal :=
  match v.handle.pending with
  | some (.callback signals) => signals
  | _ => []

/-- **When a handle is stopped**, an entry is written on what it held, and then its signals are
sent. -/
theorem tearDown_eq (i : Interpreter C) (v : Invocation) :
    i.tearDown v = ((tearDownEntries v).foldl note i).deliver (partingSignals v) := by
  unfold tearDown tearDownEntries partingSignals
  rw [InvokeHandle.fst_stop]
  cases v.handle.pending with
  | none => rfl
  | some teardown => cases teardown <;> rfl

theorem still_tearDown (i : Interpreter C) (v : Invocation) : (i.tearDown v).still = i.still := by
  rw [tearDown_eq, still_deliver]
  exact foldl_unchanged still still_note _ i

theorem shell_stopInvocation (i : Interpreter C) (v : Invocation) :
    (i.stopInvocation v).shell = i.shell := by
  rw [stopInvocation, shell_eq_of_still (still_tearDown _ v)]
  rfl

theorem shell_cancelTimer (i : Interpreter C) (t : Timer) : (i.cancelTimer t).shell = i.shell :=
  rfl

theorem shell_leave (i : Interpreter C) (s : StateId) : (i.leave s).shell = i.shell := by
  rw [leave, cancelTimers, foldl_unchanged shell shell_cancelTimer, stopInvocations,
    foldl_unchanged shell shell_stopInvocation]

/-- What starting the service of an invocation amounts to now. -/
def startup (i : Interpreter C) (v : Invoke) : Startup :=
  i.machine.service v.service ⟨i.emitters.size⟩

/-- The interpreter when the service of an invocation is about to run. -/
def announce (i : Interpreter C) (v : Invoke) : Interpreter C :=
  { i with emitters := i.emitters.push ⟨i.tree.serviceName v.service, true⟩ }.note
    (.serviceCalled (i.tree.serviceName v.service) ⟨i.emitters.size⟩)

/-- The entries on an invocation once its service has run. -/
def begunEntries (i : Interpreter C) (s : StateId) (v : Invoke) : List (Entry C) :=
  ((i.startup v).task.map fun task => .taskSpawned ⟨i.emitters.size⟩ task).toList ++
    [.invocationStarted ⟨i.emitters.size⟩ v.id s]

theorem isService_of_mem_begunEntries {i : Interpreter C} {s : StateId} {v : Invoke} {e : Entry C}
    (he : e ∈ i.begunEntries s v) : e.isService = true := by
  rcases List.mem_append.mp he with he | he
  · obtain ⟨task, -, rfl⟩ := Option.map_eq_some_iff.mp (Option.mem_toList.mp he)
    rfl
  · rw [List.mem_singleton.mp he]
    rfl

theorem startInvocation_eq (s : StateId) (i : Interpreter C) (v : Invoke) :
    startInvocation s i v =
      let j := (i.begunEntries s v).foldl note ((i.announce v).deliver (i.startup v).signals)
      { j with invocations := j.invocations ++ [i.machine.invocation i.emitters.size s v] } := by
  unfold startInvocation begunEntries
  cases h : (i.startup v).task with
  | none =>
    have h' : (i.machine.service v.service ⟨i.emitters.size⟩).task = none := h
    simp only [h']
    rfl
  | some task =>
    have h' : (i.machine.service v.service ⟨i.emitters.size⟩).task = some task := h
    simp only [h']
    rfl

theorem shell_startInvocation (s : StateId) (i : Interpreter C) (v : Invoke) :
    (startInvocation s i v).shell = i.shell := by
  have h := shell_deliver (i.announce v) (i.startup v).signals
  rw [startInvocation_eq]
  exact (foldl_unchanged shell shell_note (i.begunEntries s v) _).trans h

theorem shell_armTimer (s : StateId) (i : Interpreter C) (delay : Delay × Nat) :
    (armTimer s i delay).shell = i.shell := by
  unfold armTimer
  split <;> rfl

theorem shell_enter (i : Interpreter C) (s : StateId) : (i.enter s).shell = i.shell := by
  simp only [enter]
  rw [foldl_unchanged shell (shell_armTimer s), foldl_unchanged shell (shell_startInvocation s)]

theorem shell_leaveAll (i : Interpreter C) (states : List StateId) :
    (i.leaveAll states).shell = i.shell :=
  foldl_unchanged shell shell_leave states i

theorem shell_enterAll (i : Interpreter C) (states : List StateId) :
    (i.enterAll states).shell = i.shell :=
  foldl_unchanged shell shell_enter states i

theorem sameShell_leaveAll (i : Interpreter C) (states : List StateId) :
    SameShell i (i.leaveAll states) :=
  sameShell_of_shell (shell_leaveAll i states)

/-! ### Actions and observers -/

theorem still_present (snapshot : Snapshot C) (i : Interpreter C) (observer : Nat × Observer C) :
    (present snapshot i observer).still = i.still :=
  still_deliver _ _

theorem still_notify (i : Interpreter C) : i.notify.still = i.still :=
  foldl_unchanged still (still_present i.snapshot) i.observers i

theorem untouched_notify (i : Interpreter C) : Untouched i i.notify :=
  untouched_of_still (still_notify i)

/-- The interpreter when an action has been run, before it is known whether it failed. -/
def act (event : Event) (i : Interpreter C) (a : ActionId) : Interpreter C :=
  let j := i.note (.ran (i.tree.actionName a) event.name)
  { j with context := ((i.machine.action a).effect i.context event).1 }.deliver
    ((i.machine.action a).signals j.turn i.context event)

theorem runActions_cons (event : Event) (i : Interpreter C) (a : ActionId) (rest : List ActionId) :
    i.runActions event (a :: rest) =
      match ((i.machine.action a).effect i.context event).2 with
      | none => (i.act event a).runActions event rest
      | some cause =>
        ((i.act event a).note (.actionFailed (i.tree.actionName a) event.name cause.message),
          some (.actionFailed (i.tree.actionName a) event.name cause)) := rfl

/-- An action changes only the context, apart from messages. -/
theorem still_act (event : Event) (i : Interpreter C) (a : ActionId) (c : C) :
    { (i.act event a).still with context := c } = { i.still with context := c } := by
  simp only [act]
  rw [still_deliver]
  rfl

theorem still_runActions (event : Event) (i : Interpreter C) (actions : List ActionId) (c : C) :
    { (i.runActions event actions).1.still with context := c } = { i.still with context := c } := by
  induction actions generalizing i with
  | nil => rfl
  | cons a rest ih =>
    rw [runActions_cons]
    split
    · rw [ih, still_act]
    · rw [still_note, still_act]

theorem sameBody_runActions (event : Event) (i : Interpreter C) (actions : List ActionId) :
    SameBody i (i.runActions event actions).1 :=
  sameBody_of_still i.context (still_runActions event i actions _)

/-! ### Logs of deeds and calls -/

section Log

variable {α : Type} {f : Entry C → Option α}

theorem log_notes (i : Interpreter C) (es : List (Entry C)) :
    (es.foldl note i).log f = i.log f ++ es.filterMap f := by
  induction es generalizing i with
  | nil => simp
  | cons e rest ih =>
    rw [List.foldl_cons, ih, log_note, List.append_assoc]
    cases h : f e <;> simp [h]

theorem log_cancelTimer (i : Interpreter C) (t : Timer) :
    (i.cancelTimer t).log f = i.log f ++ (f (.timerCancelled t.id t.state)).toList :=
  log_note i _

theorem log_armTimer (s : StateId) (i : Interpreter C) (delay : Delay × Nat)
    (hclock : i.hasClock = true) :
    (armTimer s i delay).log f =
      i.log f ++ (f (.timerArmed ⟨i.nextTimer⟩ s delay.1.millis)).toList := by
  rw [armTimer, if_pos hclock]
  exact log_note i _

theorem filterMap_stopped_of_idle (hidle : ∀ e : Entry C, e.isService = true → f e = none)
    (v : Invocation) :
    (.invocationStopped v.origin v.id :: tearDownEntries v : List (Entry C)).filterMap f = [] := by
  refine List.filterMap_eq_nil_iff.mpr fun e he => hidle e ?_
  rcases List.mem_cons.mp he with rfl | he
  · rfl
  · exact isService_of_mem_tearDownEntries he

variable (hf : ∀ e : Entry C, e.isDeed = false → e.isCall = false → f e = none)

include hf

theorem log_tearDown (i : Interpreter C) (v : Invocation) :
    (i.tearDown v).log f = i.log f ++ (tearDownEntries v).filterMap f := by
  rw [tearDown_eq, log_deliver hf, log_notes]

theorem log_stopInvocation (i : Interpreter C) (v : Invocation) :
    (i.stopInvocation v).log f =
      i.log f ++ (.invocationStopped v.origin v.id :: tearDownEntries v).filterMap f := by
  have hstopped := log_notes (f := f) i [.invocationStopped v.origin v.id]
  simp only [stopInvocation]
  rw [log_tearDown hf, ← List.singleton_append, List.filterMap_append, ← List.append_assoc,
    ← hstopped]
  rfl

/-- A log that does not look at services does not notice that one is stopped. -/
theorem log_stopInvocation_of_idle (hidle : ∀ e : Entry C, e.isService = true → f e = none)
    (i : Interpreter C) (v : Invocation) : (i.stopInvocation v).log f = i.log f := by
  rw [log_stopInvocation hf, filterMap_stopped_of_idle hidle, List.append_nil]

theorem log_startInvocation (s : StateId) (i : Interpreter C) (v : Invoke) :
    (startInvocation s i v).log f = i.log f ++
      (.serviceCalled (i.tree.serviceName v.service) ⟨i.emitters.size⟩ ::
        i.begunEntries s v).filterMap f := by
  have hannounce : (i.announce v).log f = i.log f ++
      [.serviceCalled (i.tree.serviceName v.service) ⟨i.emitters.size⟩].filterMap f :=
    log_notes i [_]
  rw [startInvocation_eq]
  refine (log_notes _ (i.begunEntries s v)).trans ?_
  rw [log_deliver hf, hannounce, List.append_assoc, ← List.filterMap_append, List.singleton_append]

theorem log_startInvocation_of_idle (hidle : ∀ e : Entry C, e.isService = true → f e = none)
    (s : StateId) (i : Interpreter C) (v : Invoke) : (startInvocation s i v).log f = i.log f := by
  have hnone : (.serviceCalled (i.tree.serviceName v.service) ⟨i.emitters.size⟩ ::
      i.begunEntries s v).filterMap f = [] := by
    refine List.filterMap_eq_nil_iff.mpr fun e he => hidle e ?_
    rcases List.mem_cons.mp he with rfl | he
    · rfl
    · exact isService_of_mem_begunEntries he
  rw [log_startInvocation hf, hnone, List.append_nil]

theorem log_act (event : Event) (i : Interpreter C) (a : ActionId) :
    (i.act event a).log f = i.log f ++ (f (.ran (i.tree.actionName a) event.name)).toList := by
  simp only [act]
  rw [log_deliver hf]
  exact log_note i _

/-- **Actions are run in order, up to the first one that fails.** -/
theorem log_runActions (event : Event) (i : Interpreter C) (actions : List ActionId) :
    ∃ done rest, actions = done ++ rest ∧ ((i.runActions event actions).2 = none → rest = []) ∧
      (i.runActions event actions).1.log f =
        i.log f ++ done.filterMap fun a => f (.ran (i.tree.actionName a) event.name) := by
  induction actions generalizing i with
  | nil => exact ⟨[], [], rfl, fun _ => rfl, by simp [runActions]⟩
  | cons a rest ih =>
    have hact := log_act hf event i a
    have htree : (i.act event a).tree = i.tree := (untouched_deliver _ _).tree
    rw [runActions_cons]
    split
    · obtain ⟨done, left, hrest, hnone, hlog⟩ := ih (i.act event a)
      refine ⟨a :: done, left, by rw [hrest, List.cons_append], hnone, ?_⟩
      rw [hlog, hact, htree, List.append_assoc]
      cases h : f (.ran (i.tree.actionName a) event.name) <;> simp [h]
    · refine ⟨[a], rest, rfl, by simp, ?_⟩
      rw [log_remark hf _ rfl rfl, hact]
      cases h : f (.ran (i.tree.actionName a) event.name) <;> simp [h]

theorem log_present (snapshot : Snapshot C) (i : Interpreter C) (observer : Nat × Observer C) :
    (present snapshot i observer).log f =
      i.log f ++ (f (.observed observer.1 snapshot)).toList := by
  simp only [present]
  rw [log_deliver hf, log_note]

/-- **All observers are shown the same snapshot**, in the order of subscribing. -/
theorem log_notify (i : Interpreter C) :
    i.notify.log f = i.log f ++ i.observers.filterMap fun o => f (.observed o.1 i.snapshot) := by
  -- Observers may send messages in between; the snapshot is that of the beginning.
  have h (snapshot : Snapshot C) (l : List (Nat × Observer C)) (j : Interpreter C) :
      (l.foldl (present snapshot) j).log f =
        j.log f ++ l.filterMap fun o => f (.observed o.1 snapshot) := by
    induction l generalizing j with
    | nil => simp
    | cons o rest ih =>
      rw [List.foldl_cons, ih, log_present hf, List.append_assoc]
      cases h : f (.observed o.1 snapshot) <;> simp [h]
  exact h i.snapshot i.observers i

end Log

end Interpreter

end Statechart
