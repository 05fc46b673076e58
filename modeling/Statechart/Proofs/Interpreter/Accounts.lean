import Statechart.Proofs.Interpreter.Rounds
import Statechart.Proofs.Interpreter.Writing

/-!
# The account of a run

The journal is enough to tell what the core was told in a run: whoever keeps the books of started
and stopped invocations and of armed and cancelled timers (`Account`) knows which of the messages
that were taken out of the queue were stale. The others, fed to the core one after another, give
the active states, and the actions of the steps that the core makes of them give the context
(`rounds_refine_core`). So all that an interpreter adds to the core is bookkeeping.
-/

namespace Statechart

/-! ### What the core makes of impulses -/

namespace StateTree

variable (t : StateTree)

/-- The active states after an impulse. They stay the same if the core makes no step of it. -/
def follow (c : Configuration) (x : Impulse) : Configuration :=
  match x.step? t c with
  | some step => step.configuration
  | none => c

/-- The steps that the core makes of impulses, with the events that the actions see. -/
def steps : Configuration → List Impulse → List (Step × Event)
  | _, [] => []
  | c, x :: rest =>
    ((x.step? t c).map fun step => (step, x.occasion)).toList ++ steps (t.follow c x) rest

theorem steps_append (c : Configuration) (xs ys : List Impulse) :
    t.steps c (xs ++ ys) = t.steps c xs ++ t.steps (xs.foldl t.follow c) ys := by
  induction xs generalizing c with
  | nil => rfl
  | cons x rest ih =>
    rw [List.cons_append, steps, ih, steps, List.append_assoc]
    rfl

end StateTree

/-- The context after steps, of which the actions are run on the events beside them. -/
def Machine.carryAll {C : Type} (m : Machine C) (c : C) (steps : List (Step × Event)) : C :=
  steps.foldl (fun c s => m.carry s.2 c s.1.actions) c

/-! ### Keeping the books -/

/-- What can be told from a journal: which invocations run, which timers are armed, and what the
core was told. -/
structure Account where
  live : List InvocationId
  /-- the armed timers with their states and delays -/
  armed : List (TimerId × StateId × Nat)
  impulses : List Impulse

namespace Account

/-- The account of an empty journal. -/
def empty : Account := ⟨[], [], []⟩

/-- What a message tells the core. One that comes too late tells nothing. -/
def impulse? (t : StateTree) (a : Account) : Envelope → Option Impulse
  | .event event none => some (.event event)
  | .event event (some origin) => if origin ∈ a.live then some (.event event) else none
  | .timer id => (a.armed.find? fun u => u.1 == id).bind fun u =>
    ((t.node u.2.1).after.find? fun delay => delay.millis == u.2.2).map .delay
  | .stop => none

/-- Account for an entry of the journal. -/
def record {C : Type} (t : StateTree) (a : Account) : Entry C → Account
  | .invocationStarted origin _ _ => { a with live := a.live ++ [origin] }
  | .invocationStopped origin _ => { a with live := a.live.filter fun o => o != origin }
  | .timerArmed id state millis => { a with armed := a.armed ++ [(id, state, millis)] }
  | .timerCancelled id _ => { a with armed := a.armed.filter fun u => u.1 != id }
  | .dequeued e =>
    { a with
      armed := a.armed.filter fun u => !e.isTimer u.1
      impulses := a.impulses ++ (a.impulse? t e).toList }
  | _ => a

end Account

namespace Interpreter

variable {C : Type} {i j : Interpreter C} {xs : List Impulse}

/-- The account of the journal. -/
def account (i : Interpreter C) : Account := i.journal.toList.foldl (Account.record i.tree) .empty

/-- Entries that are of no account leave the books alone. -/
theorem foldl_record {t : StateTree} {es : List (Entry C)}
    (hes : ∀ e ∈ es, ∀ a, Account.record t a e = a) (a : Account) :
    es.foldl (Account.record t) a = a := by
  induction es generalizing a with
  | nil => rfl
  | cons e rest ih =>
    obtain ⟨he, hrest⟩ := List.forall_mem_cons.mp hes
    rw [List.foldl_cons, he, ih hrest]

theorem record_of_isTraffic {t : StateTree} {e : Entry C} (h : e.isTraffic = true) (a : Account) :
    a.record t e = a := by
  cases e with
  | enqueued => rfl
  | sent => rfl
  | emitted => rfl
  | _ => exact nomatch h

theorem record_of_isDismissal {t : StateTree} {n : Entry C} (h : n.isDismissal = true)
    (a : Account) : a.record t n = a := by
  cases n with
  | stale => rfl
  | unhandled => rfl
  | timerWasCancelled => rfl
  | _ => exact nomatch h

theorem foldl_record_filter (t : StateTree) (es : List (Entry C)) (a : Account) :
    (es.filter fun e => !e.isTraffic).foldl (Account.record t) a =
      es.foldl (Account.record t) a := by
  induction es generalizing a with
  | nil => rfl
  | cons e rest ih =>
    cases he : e.isTraffic with
    | true =>
      rw [List.filter_cons_of_neg (by simp [he]), List.foldl_cons, record_of_isTraffic he, ih]
    | false => rw [List.filter_cons_of_pos (by simp [he]), List.foldl_cons, List.foldl_cons, ih]

theorem account_note (i : Interpreter C) (e : Entry C) :
    (i.note e).account = i.account.record i.tree e := by
  simp [account, note, tree]

theorem Writes.account {es : List (Entry C)} (h : Writes i es j) (htree : j.tree = i.tree) :
    j.account = es.foldl (Account.record i.tree) i.account := by
  obtain ⟨all, hjournal, rfl, -⟩ := h
  rw [Interpreter.account, htree, hjournal, List.foldl_append, foldl_record_filter]
  rfl

/-- **The books are right**: what they say is live and armed is, and they tell the impulses `xs`. -/
structure Tracked (i : Interpreter C) (xs : List Impulse) : Prop where
  live : i.account.live = i.invocations.map Invocation.origin
  armed : i.account.armed = i.timers.map fun t => (t.id, t.state, t.millis)
  impulses : i.account.impulses = xs

theorem Tracked.of_account (h : i.Tracked xs) (haccount : j.account = i.account)
    (hinvocations : j.invocations = i.invocations) (htimers : j.timers = i.timers) :
    j.Tracked xs := by
  constructor
  · rw [haccount, hinvocations, h.live]
  · rw [haccount, htimers, h.armed]
  · rw [haccount, h.impulses]

theorem Tracked.self (h : i.Tracked xs) : i.Tracked i.account.impulses := by
  rw [h.impulses]
  exact h

/-- Nothing happens that the books are about. -/
theorem Tracked.alike (h : i.Tracked xs) {es : List (Entry C)} (hwrites : Writes i es j)
    (halike : Alike i j) (hidle : ∀ e ∈ es, ∀ a, Account.record i.tree a e = a) : j.Tracked xs := by
  refine h.of_account ?_ halike.invocations halike.timers
  rw [hwrites.account (congrArg Machine.tree halike.machine), foldl_record hidle]

/-! ### The books during a step -/

theorem Tracked.stopInvocation (h : i.Tracked xs) (v : Invocation) :
    (i.stopInvocation v).Tracked xs := by
  obtain ⟨hinvocations, -, htimers, -⟩ := stopInvocation_holdings i v
  have htree : (i.stopInvocation v).tree = i.tree :=
    (sameShell_of_shell (shell_stopInvocation i v)).tree
  have hidle : ∀ e ∈ tearDownEntries (C := C) v, ∀ a, Account.record i.tree a e = a := by
    unfold tearDownEntries
    split <;> simp [Account.record]
  have haccount := (writes_stopInvocation i v).account htree
  rw [List.foldl_cons, foldl_record hidle] at haccount
  constructor
  · rw [haccount, hinvocations, Account.record, h.live, List.filter_map]
    rfl
  · rw [haccount, htimers]
    exact h.armed
  · rw [haccount]
    exact h.impulses

theorem Tracked.cancelTimer (h : i.Tracked xs) (t : Timer) : (i.cancelTimer t).Tracked xs := by
  have haccount : (i.cancelTimer t).account = _ := account_note i (.timerCancelled t.id t.state)
  constructor
  · rw [haccount]
    exact h.live
  · rw [haccount, Account.record, h.armed, List.filter_map]
    rfl
  · rw [haccount]
    exact h.impulses

theorem Tracked.startInvocation (h : i.Tracked xs) (s : StateId) (v : Invoke) :
    (startInvocation s i v).Tracked xs := by
  obtain ⟨hinvocations, -, htimers, -⟩ := startInvocation_holdings s i v
  have htree : (Interpreter.startInvocation s i v).tree = i.tree :=
    (sameShell_of_shell (shell_startInvocation s i v)).tree
  have hbegun (a : Account) : (i.begunEntries s v).foldl (Account.record i.tree) a =
      { a with live := a.live ++ [⟨i.emitters.size⟩] } := by
    unfold begunEntries
    cases (i.startup v).task <;> rfl
  have haccount := (writes_startInvocation s i v).account htree
  rw [List.foldl_cons, hbegun] at haccount
  constructor
  · rw [haccount, hinvocations, List.map_append, ← h.live]
    rfl
  · rw [haccount, htimers]
    exact h.armed
  · rw [haccount]
    exact h.impulses

theorem Tracked.armTimer (h : i.Tracked xs) (s : StateId) (delay : Delay × Nat) :
    (armTimer s i delay).Tracked xs := by
  unfold Interpreter.armTimer
  split
  · have haccount := account_note i (.timerArmed ⟨i.nextTimer⟩ s delay.1.millis)
    constructor
    · exact (congrArg Account.live haccount).trans h.live
    · refine (congrArg Account.armed haccount).trans ?_
      rw [List.map_append, ← h.armed]
      rfl
    · exact (congrArg Account.impulses haccount).trans h.impulses
  · exact h.of_account (account_note i (.timerUnarmed s delay.1.millis)) rfl rfl

/-- **A shift keeps the books right.** -/
theorem Tracked.shift (h : i.Tracked xs) (exit entry : List StateId) (c : Configuration)
    (status : Status) : (i.shift exit entry c status).Tracked xs := by
  refine shift_preserves (P := fun i => i.Tracked xs) ?_ ?_ ?_ ?_ ?_ h exit entry c status
  · exact fun _ v hi => hi.stopInvocation v
  · exact fun _ t hi => hi.cancelTimer t
  · exact fun _ _ _ hi => ⟨hi.live, hi.armed, hi.impulses⟩
  · exact fun s _ v hi => hi.startInvocation s v
  · exact fun s _ delay hi => hi.armTimer s delay

theorem Tracked.react (h : i.Tracked xs) {e : Entry C} (he : e.isTraffic = false)
    (hdeed : e.isDeed = false) (hidle : ∀ a, Account.record i.tree a e = a) (event : Event)
    (actions : List ActionId) (remember : Interpreter C → History) :
    (i.react e event actions remember).1.Tracked xs := by
  obtain ⟨reports, hreports, hwrites⟩ := writes_react i he event actions remember
  refine h.alike hwrites (alike_react i hdeed event actions remember) ?_
  intro n hn a
  rcases List.mem_append.mp hn with hn | hn
  · rcases List.mem_cons.mp hn with rfl | hn
    · exact hidle a
    · obtain ⟨_, -, rfl⟩ := List.mem_map.mp hn
      rfl
  · have hreport := hreports n hn
    cases n with
    | actionFailed => rfl
    | observed => rfl
    | _ => exact nomatch hreport

theorem Tracked.notify (h : i.Tracked xs) : i.notify.Tracked xs := by
  refine h.alike (writes_notify i) (alike_notify i) ?_
  intro n hn a
  obtain ⟨_, -, rfl⟩ := List.mem_map.mp hn
  rfl

theorem Tracked.note (h : i.Tracked xs) {e : Entry C}
    (hidle : ∀ a, Account.record i.tree a e = a) : (i.note e).Tracked xs :=
  h.of_account ((account_note i e).trans (hidle _)) rfl rfl

theorem Tracked.discard (h : i.Tracked xs) : i.discard.Tracked xs :=
  h.of_account (account_note i (.discarded i.queue.length)) rfl rfl

theorem Tracked.stop (h : i.Tracked xs) : i.stop.1.Tracked xs := by
  cases hs : i.status with
  | stopped =>
    rw [stop_eq_of_stopped hs]
    exact h
  | notStarted =>
    have hover : { i with status := .stopped }.Tracked xs := ⟨h.live, h.armed, h.impulses⟩
    rw [stop_eq_of_notStarted hs]
    exact (hover.discard.note fun _ => rfl).notify
  | running =>
    rw [stop_eq hs]
    exact (h.shift _ _ _ _).discard.react rfl rfl (fun _ => rfl) _ _ _

theorem Tracked.take (h : i.Tracked xs) (tr : Transition) (event : Event) :
    (i.take tr event).1.Tracked xs := by
  rw [take_eq]
  exact (h.shift _ _ _ _).react rfl rfl (fun _ => rfl) _ _ _

theorem Tracked.launch (h : i.Tracked xs) : i.launch.1.Tracked xs := by
  rw [Interpreter.launch]
  exact (h.shift _ _ _ _).react rfl rfl (fun _ => rfl) _ _ _

/-- A message that is taken up is accounted for. -/
theorem Tracked.draw (h : i.Tracked xs) (e : Envelope) (rest : List Envelope) :
    (i.draw e rest).Tracked (xs ++ (i.account.impulse? i.tree e).toList) := by
  have haccount : (i.draw e rest).account = _ := account_note i (.dequeued e)
  constructor
  · rw [haccount]
    exact h.live
  · rw [haccount, Account.record, h.armed, List.filter_map]
    rfl
  · rw [haccount, Account.record, h.impulses]

/-! ### What the books tell of a message -/

theorem find?_millis {delays : List Delay} (h : delays.Pairwise fun a b => a.millis < b.millis)
    {delay : Delay} (hdelay : delay ∈ delays) :
    delays.find? (fun other => other.millis == delay.millis) = some delay := by
  have hnodup : (delays.map Delay.millis).Nodup :=
    (List.pairwise_map.mpr h).imp fun hlt => Nat.ne_of_lt hlt
  exact find?_of_unique hdelay fun _ hother hmillis =>
    List.inj_on_of_nodup_map hnodup hother hdelay hmillis

/-- **The books tell of a message what it is worth.** -/
theorem Tracked.impulse? (h : i.Tracked xs) (hi : i.Coherent) (e : Envelope) :
    i.account.impulse? i.tree e = i.impulse? e := by
  cases e with
  | event event origin =>
    cases origin with
    | none => rfl
    | some origin =>
      have hlive : origin ∈ i.account.live ↔ i.isLive origin = true := by
        rw [h.live]
        simp [isLive]
      simp only [Account.impulse?, Interpreter.impulse?, hlive]
  | timer id =>
    have harmed : i.account.armed.find? (fun u => u.1 == id) =
        (i.timers.find? fun t => t.id == id).map fun t => (t.id, t.state, t.millis) := by
      rw [h.armed, List.find?_map]
      rfl
    rw [Account.impulse?, Interpreter.impulse?, harmed]
    cases hfind : i.timers.find? fun t => t.id == id with
    | none => rfl
    | some t =>
      obtain ⟨delay, hdelay, hmillis, -⟩ := hi.impulse?_timer (List.mem_of_find?_eq_some hfind)
      -- The books know a delay by its length only, and no state has two delays of one length.
      have hsame := find?_millis (hi.tree.after t.state) (List.mem_of_getElem? hdelay)
      rw [hmillis] at hsame
      simp only [Option.map_some, Option.bind_some, hsame, hdelay]
  | stop => rfl

/-! ### Refinement -/

/-- **An interpreter refines the core.** Its active states are those that the impulses lead to, and
its context is that of the actions of the steps in between, the start included. -/
structure Refined (context : C) (i : Interpreter C) : Prop where
  tracked : i.dropped = false → i.Tracked i.account.impulses
  waiting : i.status = .notStarted → i.account.impulses = [] ∧ i.context = context
  configuration : i.status = .running →
    i.configuration = i.account.impulses.foldl i.tree.follow (.initial i.tree)
  context : i.status = .running → i.context = i.machine.carryAll context
    ((i.tree.opening, .init) :: i.tree.steps (.initial i.tree) i.account.impulses)

theorem refined_fresh (m : Machine C) (context : C) (limit : Nat) :
    ((Interpreter.new m context).withHistoryLimit limit).Refined context where
  tracked _ := ⟨rfl, rfl, rfl⟩
  waiting _ := ⟨rfl, rfl⟩
  configuration := nofun
  context := nofun

variable {context : C}

/-- Nothing happens that matters to the core. -/
theorem Refined.of_eq (h : i.Refined context)
    (htracked : j.dropped = false → j.Tracked i.account.impulses)
    (himpulses : j.account.impulses = i.account.impulses) (hmachine : j.machine = i.machine)
    (hcontext : j.context = i.context) (hconfiguration : j.configuration = i.configuration)
    (hstatus : j.status = i.status) : j.Refined context := by
  have htree : j.tree = i.tree := congrArg Machine.tree hmachine
  constructor
  case tracked =>
    intro hd
    rw [himpulses]
    exact htracked hd
  all_goals rw [hstatus, himpulses]
  case waiting => exact hcontext ▸ h.waiting
  case configuration => exact hconfiguration ▸ htree ▸ h.configuration
  case context => exact hcontext ▸ htree ▸ hmachine ▸ h.context

/-- A note that is of no account does not matter to the core. -/
theorem Refined.note (h : i.Refined context) {e : Entry C}
    (hidle : ∀ a, Account.record i.tree a e = a) : (i.note e).Refined context :=
  h.of_eq (fun hd => (h.tracked hd).note hidle)
    (congrArg Account.impulses ((account_note i e).trans (hidle _))) rfl rfl rfl rfl

theorem Tracked.refined_of_stopped (h : i.Tracked xs) (hs : i.status = .stopped) :
    i.Refined context where
  tracked _ := h.self
  waiting h := nomatch hs.symm.trans h
  configuration h := nomatch hs.symm.trans h
  context h := nomatch hs.symm.trans h

/-- The core is told something, and the interpreter does what the core makes of it. -/
theorem Refined.next (h : i.Refined context) (hs : i.status = .running) {told : List Impulse}
    (htracked : j.Tracked (i.account.impulses ++ told)) (hmachine : j.machine = i.machine)
    (hstatus : j.status = .running)
    (hconfiguration : j.configuration = told.foldl i.tree.follow i.configuration)
    (hcontext : j.context = i.machine.carryAll i.context (i.tree.steps i.configuration told)) :
    j.Refined context := by
  have htree : j.tree = i.tree := congrArg Machine.tree hmachine
  constructor
  case tracked => exact fun _ => htracked.self
  case waiting =>
    intro h
    exact nomatch hstatus.symm.trans h
  case configuration =>
    intro _
    rw [hconfiguration, h.configuration hs, htracked.impulses, htree, List.foldl_append]
  case context =>
    intro _
    rw [hcontext, h.context hs, htracked.impulses, htree, hmachine, StateTree.steps_append,
      ← h.configuration hs, ← List.cons_append, Machine.carryAll, Machine.carryAll,
      Machine.carryAll, List.foldl_append]

/-- A message that leads to no transition is accounted for, and the core makes no step of it. -/
theorem Refined.handle_of_none (h : i.Refined context) (hi : i.Coherent) (hs : i.status = .running)
    (hd : i.dropped = false) {e : Envelope} (he : e ≠ .stop) (hchoice : i.choice? e = none)
    (rest : List Envelope) : (i.handle e rest).1.Refined context := by
  have hdrawn := (h.tracked hd).draw e rest
  rw [(h.tracked hd).impulse? hi e, hi.draw_of_none hchoice] at hdrawn
  obtain ⟨n, hn, hhandle⟩ := hi.handle_of_none he hchoice rest
  have hnothing : (i.impulse? e).toList.foldl i.tree.follow i.configuration = i.configuration ∧
      i.tree.steps i.configuration (i.impulse? e).toList = [] := by
    cases himpulse : i.impulse? e with
    | none => exact ⟨rfl, rfl⟩
    | some x =>
      have hnone : x.step? i.tree i.configuration = none := by
        rw [Impulse.step?_eq, transition?_eq_none hchoice himpulse, Option.map_none]
      simp [StateTree.steps, StateTree.follow, hnone]
  rw [hhandle]
  exact h.next hs (hdrawn.note fun _ => record_of_isDismissal hn _) rfl hs hnothing.1.symm
    (by rw [hnothing.2]; rfl)

/-- A transition that is taken is the step that the core makes of what it is told. -/
theorem Refined.handle_of_some (h : i.Refined context) (hi : i.Coherent) (hs : i.status = .running)
    (hd : i.dropped = false) {e : Envelope} {tr : Transition} {event : Event}
    (hchoice : i.choice? e = some (tr, event)) (rest : List Envelope) :
    (i.handle e rest).1.Refined context := by
  have hdrawn := (h.tracked hd).draw e rest
  obtain ⟨x, himpulse, htr, rfl⟩ := exists_impulse hchoice
  have hstep : x.step? i.tree i.configuration = some (i.tree.plan i.configuration tr) := by
    rw [Impulse.step?_eq, htr, Option.map_some]
  have henacted := take_enacted (i.draw e rest) tr x.occasion
  obtain ⟨hmachine, hconfiguration, hstatus⟩ := take_frame (i.draw e rest) tr x.occasion
  rw [(h.tracked hd).impulse? hi e, himpulse] at hdrawn
  rw [(hi.handle_of_some hchoice rest).2]
  apply h.next hs (hdrawn.take tr x.occasion) hmachine (hstatus.trans hs)
  · rw [hconfiguration, Option.toList_some, List.foldl_cons, List.foldl_nil, StateTree.follow,
      hstep]
    rfl
  · rw [henacted.context, Option.toList_some, StateTree.steps, hstep]
    rfl

theorem Refined.handle (h : i.Refined context) (hi : i.Coherent) (hs : i.status = .running)
    (hd : i.dropped = false) (e : Envelope) (rest : List Envelope) :
    (i.handle e rest).1.Refined context := by
  by_cases he : e = .stop
  · subst he
    rw [handle_stop]
    exact ((h.tracked hd).draw .stop rest).stop.refined_of_stopped (stop_status _)
  · cases hchoice : i.choice? e with
    | none => exact h.handle_of_none hi hs hd he hchoice rest
    | some choice => exact h.handle_of_some hi hs hd hchoice rest

theorem Refined.launch (h : i.Refined context) (hs : i.status = .notStarted)
    (hd : i.dropped = false) : i.launch.1.Refined context := by
  obtain ⟨hnone, hcontext⟩ := h.waiting hs
  obtain ⟨hmachine, hconfiguration, hstatus⟩ := launch_frame i
  have htree : i.launch.1.tree = i.tree := congrArg Machine.tree hmachine
  have htracked := (h.tracked hd).launch
  constructor
  case tracked => exact fun _ => htracked.self
  case waiting =>
    intro h
    exact nomatch hstatus.symm.trans h
  case configuration =>
    intro _
    rw [hconfiguration, htracked.impulses, hnone, htree, List.foldl_nil]
  case context =>
    intro _
    rw [(launch_enacted i).context, hcontext, htracked.impulses, hnone, htree, hmachine]
    rfl

theorem Tracked.impulses_drop (h : i.Tracked xs) (hd : i.dropped = false) :
    i.drop.account.impulses = xs := by
  have htracked : (i.invocations.reverse.foldl Interpreter.stopInvocation i).Tracked xs :=
    List.foldlRecOn (motive := fun j => Tracked j xs) _ _ h fun _ hj v _ => hj.stopInvocation v
  rw [← htracked.impulses, Interpreter.drop, hd]
  rfl

theorem Refined.drop (h : i.Refined context) (hd : i.dropped = false) : i.drop.Refined context := by
  have hscene := sameScene_drop hd
  refine h.of_eq ?_ ((h.tracked hd).impulses_drop hd) hscene.machine hscene.context
    hscene.configuration hscene.status
  intro hd'
  exact nomatch (dropped_drop i).symm.trans hd'

/-- **Every round refines the core.** -/
theorem Refined.round (h : i.Refined context) (hi : i.Coherent) (hround : Round i j) :
    j.Refined context := by
  cases hround with
  | enqueue hd e =>
    exact h.of_eq (fun hd => (h.tracked hd).of_account (account_note i (.enqueued e)) rfl rfl)
      (congrArg Account.impulses (account_note i (.enqueued e))) rfl rfl rfl rfl
  | refuse hs event => exact h.note fun _ => rfl
  | attend observers nextSubscription now =>
    exact h.of_eq (fun hd => (h.tracked hd).of_account rfl rfl rfl) rfl rfl rfl rfl rfl
  | clock hs present =>
    exact h.of_eq (fun hd => (h.tracked hd).of_account rfl rfl rfl) rfl rfl rfl rfl rfl
  | launch hs hd hclock => exact h.launch hs hd
  | handle hs hd hqueue => exact h.handle hi hs hd _ _
  | stop hd => exact (h.tracked hd).stop.refined_of_stopped i.stop_status
  | drop hd => exact h.drop hd

theorem refined_of_rounds {d : Definition} {host : Implementations C} {m : Machine C}
    (hm : Machine.build d host = .ok m) {limit : Nat}
    (h : Rounds ((Interpreter.new m context).withHistoryLimit limit) i) :
    i.Coherent ∧ i.Refined context := by
  have hfresh := coherent_fresh (Machine.wellFormed_of_build hm) context limit
  exact ⟨h.coherent hfresh,
    h.preserve (fun _ _ hi h hround => h.round hi hround) hfresh (refined_fresh m context limit)⟩

/-- **An interpreter refines the core**, at all times in a run, from message to message. While it
runs, the active states are those that the core gets to from the initial ones, when it is told of
every message that was taken out of the queue and was not stale then; the context is what the
actions on entry of the initial states and then those of the steps in between make of the context at
the beginning, of each of these lists the actions up to the first one that fails. Which messages are
stale can be told from the journal. -/
theorem rounds_refine_core {d : Definition} {host : Implementations C} {m : Machine C}
    (hm : Machine.build d host = .ok m) (context : C) (limit : Nat) :
    let fresh := (Interpreter.new m context).withHistoryLimit limit
    (∀ calls, Rounds fresh (fresh.after calls)) ∧
    ∀ i, Rounds fresh i →
      (i.status = .running →
        i.configuration = i.account.impulses.foldl m.tree.follow (.initial m.tree) ∧
        i.context = ((m.tree.opening, Event.init) ::
          m.tree.steps (.initial m.tree) i.account.impulses).foldl
            (fun c s => (m.attempted s.2 c s.1.actions).foldl (m.effect s.2) c) context) ∧
      (i.dropped = false → ∀ e, i.account.impulse? m.tree e = i.impulse? e ∧
        (i.impulse? e = none ↔ e = .stop ∨ i.Stale e)) := by
  intro fresh
  refine ⟨after_rounds fresh, ?_⟩
  intro i h
  obtain ⟨hcoherent, hrefined⟩ := refined_of_rounds hm h
  have hmachine : i.machine = m := h.machine
  have htree : i.tree = m.tree := congrArg Machine.tree hmachine
  refine ⟨fun hs => ⟨htree ▸ hrefined.configuration hs, htree ▸ hmachine ▸ hrefined.context hs⟩, ?_⟩
  intro hd e
  exact ⟨htree ▸ (hrefined.tracked hd).impulse? hcoherent e, hcoherent.impulse?_eq_none_iff⟩

end Interpreter

/-- A fuse that was blown and is whole again, and that was sent what it does not handle. -/
theorem fuse_refines_core :
    let i := ((Interpreter.new fuseMachine 0).withHistoryLimit 10).after [.start 1,
      .send 5 (.named "surge"), .elapse ⟨0⟩, .drain 5, .send 5 (.named "drizzle")]
    i.status = .running ∧ i.account.impulses.length = 3 ∧ i.context = 11 ∧
    i.configuration =
      i.account.impulses.foldl fuseMachine.tree.follow (.initial fuseMachine.tree) := by
  intro i
  have hrunning : i.status = .running := by decide +kernel
  obtain ⟨hcalls, hrefines⟩ := Interpreter.rounds_refine_core build_fuse 0 10
  exact ⟨hrunning, by decide +kernel, by decide +kernel, ((hrefines i (hcalls _)).1 hrunning).1⟩

end Statechart
