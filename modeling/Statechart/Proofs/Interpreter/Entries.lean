import Statechart.Proofs.Interpreter.Moves

/-!
# Entries of a journal

When states are left and entered, entries on what is held are written into the journal, in a fixed
order. In between there may be entries on messages, for host code may send some whenever it runs;
these messages wait in the queue, in the order in which they were sent (`Writes`). Whatever the
journal tells of states that are left is read off what is written then (`Numbered.log_leaveAll`).
-/

namespace Statechart

namespace Entry

variable {C : Type}

/-- The entry is about a message that was sent. -/
def isTraffic : Entry C → Bool
  | enqueued _ | sent _ | emitted _ => true
  | _ => false

/-- The message that was put into the queue. -/
def posted? : Entry C → Option Envelope
  | enqueued e => some e
  | _ => none

/-- The message that was taken out of the queue. -/
def dequeued? : Entry C → Option Envelope
  | dequeued e => some e
  | _ => none

/-- The action that was run, and the event it was run on. -/
def ran? : Entry C → Option (String × String)
  | ran action event => some (action, event)
  | _ => none

/-- The entry is about what is held, when it begins or ends. -/
def isHolding : Entry C → Bool
  | serviceCalled .. | taskSpawned .. | invocationStarted .. => true
  | invocationStopped .. | tornDown .. | taskAborted .. => true
  | timerArmed .. | timerCancelled .. | timerUnarmed .. => true
  | _ => false

theorem isTraffic_of_isService {e : Entry C} (h : e.isService = true) : e.isTraffic = false := by
  cases e with
  | enqueued => exact nomatch h
  | sent => exact nomatch h
  | emitted => exact nomatch h
  | _ => rfl

theorem isHolding_of_isService {e : Entry C} (h : e.isService = true) : e.isHolding = true := by
  cases e <;> first | rfl | exact nomatch h

theorem idle_of_isTraffic {e : Entry C} (h : e.isTraffic = true) :
    e.isDeed = false ∧ e.isCall = false := by
  cases e with
  | enqueued => exact ⟨rfl, rfl⟩
  | sent => exact ⟨rfl, rfl⟩
  | emitted => exact ⟨rfl, rfl⟩
  | _ => exact nomatch h

theorem dequeued?_of_isTraffic {e : Entry C} (h : e.isTraffic = true) : e.dequeued? = none := by
  cases e with
  | dequeued => exact nomatch h
  | _ => rfl

theorem ran?_of_isTraffic {e : Entry C} (h : e.isTraffic = true) : e.ran? = none := by
  cases e with
  | ran => exact nomatch h
  | _ => rfl

theorem of_isHolding {e : Entry C} (h : e.isHolding = true) :
    e.dequeued? = none ∧ e.ran? = none := by
  cases e with
  | dequeued => exact nomatch h
  | ran => exact nomatch h
  | _ => exact ⟨rfl, rfl⟩

end Entry

namespace Interpreter

variable {C : Type} {i j k : Interpreter C} {es fs : List (Entry C)}

/-- All messages that were put into the queue. -/
def posted (i : Interpreter C) : List Envelope := i.log Entry.posted?

/-- All messages that were taken out of the queue. -/
def dequeued (i : Interpreter C) : List Envelope := i.log Entry.dequeued?

/-- All actions that were run. -/
def ran (i : Interpreter C) : List (String × String) := i.log Entry.ran?

/-- From `i` to `j` the entries `es` are written, and others on messages, which are put into the
queue. -/
def Writes (i : Interpreter C) (es : List (Entry C)) (j : Interpreter C) : Prop :=
  ∃ all : List (Entry C), j.journal.toList = i.journal.toList ++ all ∧
    all.filter (fun e => !e.isTraffic) = es ∧ j.queue = i.queue ++ all.filterMap Entry.posted?

/-- From `i` to `j` nothing is taken out of the queue, and what is put into it waits at its end. -/
structure Piles (i j : Interpreter C) : Prop where
  dequeued : j.dequeued = i.dequeued
  posted : ∃ new, j.posted = i.posted ++ new ∧ j.queue = i.queue ++ new

theorem Piles.trans (hij : Piles i j) (hjk : Piles j k) : Piles i k := by
  obtain ⟨new, hposted, hqueue⟩ := hij.posted
  obtain ⟨new', hposted', hqueue'⟩ := hjk.posted
  refine ⟨hjk.dequeued.trans hij.dequeued, new ++ new', ?_, ?_⟩
  · rw [hposted', hposted, List.append_assoc]
  · rw [hqueue', hqueue, List.append_assoc]

namespace Writes

theorem refl (i : Interpreter C) : Writes i [] i := ⟨[], by simp⟩

theorem trans (hij : Writes i es j) (hjk : Writes j fs k) : Writes i (es ++ fs) k := by
  obtain ⟨a, hjournal, ha, hqueue⟩ := hij
  obtain ⟨b, hjournal', hb, hqueue'⟩ := hjk
  refine ⟨a ++ b, ?_, ?_, ?_⟩
  · rw [hjournal', hjournal, List.append_assoc]
  · rw [List.filter_append, ha, hb]
  · rw [hqueue', hqueue, List.filterMap_append, List.append_assoc]

/-- What each step of a fold writes is written one after another. -/
theorem foldl {α : Type} {f : Interpreter C → α → Interpreter C} {g : α → List (Entry C)}
    (h : ∀ i a, Writes i (g a) (f i a)) (l : List α) (i : Interpreter C) :
    Writes i (l.flatMap g) (l.foldl f i) := by
  induction l generalizing i with
  | nil => exact refl i
  | cons a rest ih => exact (h i a).trans (ih _)

/-- A log that leaves out messages is continued by what is written. -/
theorem log_eq {α : Type} {f : Entry C → Option α} (hf : ∀ e, e.isTraffic = true → f e = none)
    (h : Writes i es j) : j.log f = i.log f ++ es.filterMap f := by
  obtain ⟨all, hjournal, rfl, -⟩ := h
  have hall : (all.filter fun e => !e.isTraffic).filterMap f = all.filterMap f := by
    rw [List.filterMap_filter]
    apply List.filterMap_congr
    intro e _
    cases he : e.isTraffic with
    | true => simp [hf e he]
    | false => simp
  rw [log, hjournal, List.filterMap_append, hall, log]

/-- **What is sent waits in the queue**, in the order of sending. -/
theorem piles (h : Writes i es j) (hes : ∀ e ∈ es, e.dequeued? = none) : Piles i j := by
  constructor
  · rw [dequeued, h.log_eq fun _ => Entry.dequeued?_of_isTraffic,
      List.filterMap_eq_nil_iff.mpr hes, List.append_nil]
    rfl
  · obtain ⟨all, hjournal, -, hqueue⟩ := h
    refine ⟨all.filterMap Entry.posted?, ?_, hqueue⟩
    rw [posted, log, hjournal, List.filterMap_append]
    rfl

end Writes

/-! ### Entries -/

theorem writes_note (i : Interpreter C) {e : Entry C} (he : e.isTraffic = false) :
    Writes i [e] (i.note e) := by
  have hposted : e.posted? = none := by
    cases e with
    | enqueued => exact nomatch he
    | _ => rfl
  exact ⟨[e], by simp [note], by simp [he], by simp [hposted, note]⟩

theorem writes_notes (i : Interpreter C) {es : List (Entry C)}
    (hes : ∀ e ∈ es, e.isTraffic = false) : Writes i es (es.foldl note i) := by
  induction es generalizing i with
  | nil => exact .refl i
  | cons e rest ih =>
    obtain ⟨he, hrest⟩ := List.forall_mem_cons.mp hes
    exact (writes_note i he).trans (ih _ hrest)

/-! ### Messages -/

theorem writes_enqueue (i : Interpreter C) (e : Envelope) : Writes i [] (i.enqueue e) :=
  ⟨[.enqueued e], by simp [enqueue, note], rfl, rfl⟩

theorem writes_post (i : Interpreter C) (e : Envelope) : Writes i [] (i.post e) := by
  unfold post
  split
  · exact writes_enqueue i e
  · exact .refl i

theorem writes_emit (i : Interpreter C) (origin : InvocationId) (event : Event) :
    Writes i [] (i.emit origin event) := by
  unfold emit
  split
  · exact writes_enqueue i _
  · exact .refl i

theorem writes_signal (i : Interpreter C) (s : Signal) : Writes i [] (i.signal s) := by
  have hsent (i : Interpreter C) (accepted : Bool) : Writes i [] (i.note (.sent accepted)) :=
    ⟨[.sent accepted], by simp [note], rfl, by simp [note, Entry.posted?]⟩
  have hemitted (i : Interpreter C) (accepted : Option Bool) :
      Writes i [] (i.note (.emitted accepted)) :=
    ⟨[.emitted accepted], by simp [note], rfl, by simp [note, Entry.posted?]⟩
  cases s with
  | send event => exact (writes_post i _).trans (hsent _ _)
  | stop => exact (writes_post i _).trans (hsent _ _)
  | emit ref event =>
    simp only [signal]
    split
    · exact hemitted i _
    · exact (writes_emit i _ event).trans (hemitted _ _)
  | elapse timer => exact writes_post i _

theorem writes_deliver (i : Interpreter C) (signals : List Signal) :
    Writes i [] (i.deliver signals) := by
  have h := Writes.foldl writes_signal signals i
  have hnone : (signals.flatMap fun _ => ([] : List (Entry C))) = [] := by simp
  rwa [hnone] at h

/-! ### Leaving and entering -/

theorem writes_tearDown (i : Interpreter C) (v : Invocation) :
    Writes i (tearDownEntries v) (i.tearDown v) := by
  have hentries := writes_notes i fun e (he : e ∈ tearDownEntries v) =>
    Entry.isTraffic_of_isService (isService_of_mem_tearDownEntries he)
  have htorn := hentries.trans (writes_deliver _ (partingSignals v))
  rw [List.append_nil] at htorn
  rw [tearDown_eq]
  exact htorn

theorem writes_stopInvocation (i : Interpreter C) (v : Invocation) :
    Writes i (.invocationStopped v.origin v.id :: tearDownEntries v) (i.stopInvocation v) := by
  let j := { i with invocations := i.invocations.filter fun w => w.origin != v.origin }
  have hstopped : Writes i [.invocationStopped v.origin v.id]
      ((j.note (.invocationStopped v.origin v.id)).silence v.origin) := writes_note i rfl
  exact hstopped.trans (writes_tearDown _ v)

theorem writes_cancelTimer (i : Interpreter C) (t : Timer) :
    Writes i [.timerCancelled t.id t.state] (i.cancelTimer t) :=
  writes_note i rfl

/-- What is written when a state is left: its invocations are stopped, the latest first, each with
its handle, and then its timers are cancelled. -/
def leaveEntries (i : Interpreter C) (s : StateId) : List (Entry C) :=
  ((i.invocations.filter fun v => v.state == s).reverse.flatMap fun v =>
    .invocationStopped v.origin v.id :: tearDownEntries v) ++
  (i.timers.filter fun t => t.state == s).map fun t => .timerCancelled t.id t.state

theorem writes_leave (i : Interpreter C) (s : StateId) :
    Writes i (i.leaveEntries s) (i.leave s) := by
  have htimers : (i.stopInvocations s).timers = i.timers :=
    (foldl_stopInvocation_holdings i _).timers_eq
  have hcancelled := Writes.foldl writes_cancelTimer
    (i.timers.filter fun t => t.state == s) (i.stopInvocations s)
  rw [← List.map_eq_flatMap] at hcancelled
  rw [leave, cancelTimers, htimers]
  exact (Writes.foldl writes_stopInvocation _ i).trans hcancelled

theorem Numbered.writes_leaveAll (hi : i.Numbered) {exit : List StateId} (hnodup : exit.Nodup) :
    Writes i (exit.flatMap i.leaveEntries) (i.leaveAll exit) := by
  induction exit generalizing i with
  | nil => exact .refl i
  | cons s rest ih =>
    obtain ⟨hs, hrest⟩ := List.nodup_cons.mp hnodup
    have hother : rest.flatMap (i.leave s).leaveEntries = rest.flatMap i.leaveEntries := by
      apply List.flatMap_congr
      intro r hr
      have hne : r ≠ s := by
        rintro rfl
        exact hs hr
      rw [leaveEntries, leaveEntries, (hi.leave_holdings s).invocations_eq,
        (hi.leave_holdings s).timers_eq, filter_eq_of_ne _ _ hne, filter_eq_of_ne _ _ hne]
    rw [List.flatMap_cons, ← hother]
    exact (writes_leave i s).trans (ih (hi.leave s) hrest)

/-- **What the journal tells of states that are left** is what it tells of each of them. -/
theorem Numbered.log_leaveAll (hi : i.Numbered) {exit : List StateId} (hnodup : exit.Nodup)
    {α : Type} {f : Entry C → Option α}
    (hf : ∀ e, e.isDeed = false → e.isCall = false → f e = none) :
    (i.leaveAll exit).log f =
      i.log f ++ exit.flatMap fun s => (i.leaveEntries s).filterMap f := by
  have htraffic : ∀ e : Entry C, e.isTraffic = true → f e = none := fun e he =>
    hf e (Entry.idle_of_isTraffic he).1 (Entry.idle_of_isTraffic he).2
  rw [(hi.writes_leaveAll hnodup).log_eq htraffic, List.filterMap_flatMap]

theorem writes_startInvocation (s : StateId) (i : Interpreter C) (v : Invoke) :
    Writes i (.serviceCalled (i.tree.serviceName v.service) ⟨i.emitters.size⟩ ::
      i.begunEntries s v) (startInvocation s i v) := by
  have hcalled : Writes i [.serviceCalled (i.tree.serviceName v.service) ⟨i.emitters.size⟩]
      (i.announce v) := writes_note i rfl
  have hbegun : ∀ e ∈ i.begunEntries s v, e.isTraffic = false := fun e he =>
    Entry.isTraffic_of_isService (isService_of_mem_begunEntries he)
  rw [startInvocation_eq]
  exact (hcalled.trans (writes_deliver _ _)).trans (writes_notes _ hbegun)

theorem writes_armTimer (s : StateId) (i : Interpreter C) (delay : Delay × Nat) :
    Writes i [if i.hasClock then .timerArmed ⟨i.nextTimer⟩ s delay.1.millis
      else .timerUnarmed s delay.1.millis] (armTimer s i delay) := by
  unfold armTimer
  split
  · exact writes_note i rfl
  · exact writes_note i rfl

/-- From `i` to `j` only entries on what is held are written, and others on messages. -/
def Holds (i j : Interpreter C) : Prop := ∃ es, Writes i es j ∧ ∀ e ∈ es, e.isHolding = true

theorem Holds.trans (hij : Holds i j) (hjk : Holds j k) : Holds i k := by
  obtain ⟨es, hes, hholding⟩ := hij
  obtain ⟨fs, hfs, hholding'⟩ := hjk
  exact ⟨es ++ fs, hes.trans hfs, by simpa [or_imp, forall_and] using ⟨hholding, hholding'⟩⟩

theorem Holds.piles (h : Holds i j) : Piles i j := by
  obtain ⟨es, hes, hholding⟩ := h
  exact hes.piles fun e he => (Entry.of_isHolding (hholding e he)).1

theorem Holds.foldl {α : Type} {f : Interpreter C → α → Interpreter C}
    (h : ∀ i a, Holds i (f i a)) (l : List α) (i : Interpreter C) : Holds i (l.foldl f i) := by
  induction l generalizing i with
  | nil => exact ⟨[], .refl i, by simp⟩
  | cons a rest ih => exact (h i a).trans (ih _)

theorem holds_stopInvocation (i : Interpreter C) (v : Invocation) :
    Holds i (i.stopInvocation v) := by
  refine ⟨_, writes_stopInvocation i v, List.forall_mem_cons.mpr ⟨rfl, fun e he => ?_⟩⟩
  exact Entry.isHolding_of_isService (isService_of_mem_tearDownEntries he)

theorem holds_leave (i : Interpreter C) (s : StateId) : Holds i (i.leave s) := by
  have hcancel (i : Interpreter C) (t : Timer) : Holds i (i.cancelTimer t) :=
    ⟨_, writes_cancelTimer i t, by simp [Entry.isHolding]⟩
  rw [leave, stopInvocations, cancelTimers]
  exact (Holds.foldl holds_stopInvocation _ i).trans (Holds.foldl hcancel _ _)

theorem holds_enter (i : Interpreter C) (s : StateId) : Holds i (i.enter s) := by
  have hstart (i : Interpreter C) (v : Invoke) : Holds i (startInvocation s i v) := by
    refine ⟨_, writes_startInvocation s i v, List.forall_mem_cons.mpr ⟨rfl, fun e he => ?_⟩⟩
    exact Entry.isHolding_of_isService (isService_of_mem_begunEntries he)
  have harm (i : Interpreter C) (delay : Delay × Nat) : Holds i (armTimer s i delay) := by
    refine ⟨_, writes_armTimer s i delay, ?_⟩
    split <;> simp [Entry.isHolding]
  exact (Holds.foldl hstart _ i).trans (Holds.foldl harm _ _)

/-- **A shift writes only about what is held.** -/
theorem holds_shift (i : Interpreter C) (exit entry : List StateId) (c : Configuration)
    (status : Status) : Holds i (i.shift exit entry c status) := by
  have hleft : Holds i { i.leaveAll exit with configuration := c, status } :=
    Holds.foldl holds_leave exit i
  exact hleft.trans (Holds.foldl holds_enter entry _)

end Interpreter

end Statechart
