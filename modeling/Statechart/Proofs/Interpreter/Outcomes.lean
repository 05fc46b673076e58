import Statechart.Proofs.Interpreter.Control
import Statechart.Proofs.Interpreter.Queue

/-!
# Outcomes of actions

Whether actions fail makes no difference to the control. A failure ends the call in which it occurs,
so two interpreters of one definition may go through their queues in pieces of different size; but
who goes on until a call comes to its end (`Settles`) finds both in the same state of control,
whatever their actions did to their contexts (`Driven.agree`).
-/

namespace Statechart

/-! ### Hosts that send nothing -/

/-- No action and no service of the host sends anything. -/
structure Implementations.Silent {C : Type} (host : Implementations C) : Prop where
  actions : ∀ e ∈ host.actions.entries, Action.Silent e.2
  services : ∀ e ∈ host.services.entries, Service.Silent e.2

namespace Implementations

variable {C : Type} {host : Implementations C}

theorem silent_none : (none : Implementations C).Silent := ⟨nofun, nofun⟩

theorem Silent.action (h : host.Silent) {name : String} {a : Action C} (ha : a.Silent) :
    (host.action name a).Silent where
  actions := by
    intro e he
    rcases Keyed.mem_of_mem_insert he with rfl | he
    · exact ha
    · exact h.actions e he
  services := h.services

end Implementations

theorem Dict.mem_of_find? {α : Type} {d : Dict α} {key : String} {a : α}
    (h : d.find? key = some a) : ∃ e ∈ d.entries, e.2 = a := by
  obtain ⟨e, he, rfl⟩ := Option.map_eq_some_iff.mp h
  exact ⟨e, List.mem_of_find?_eq_some he, rfl⟩

namespace Machine

variable {C D : Type} {d : Definition}

section Bind

variable {α : Type} {find : String → Option α} {missing : String → Defect} {names : List String}
  {bound : List α}

/-- **The names are looked up one by one.** -/
theorem bindAll_eq_ok_iff :
    bindAll find missing names = .ok bound ↔ names.map find = bound.map some := by
  induction names generalizing bound with
  | nil => cases bound <;> simp [bindAll]
  | cons name rest ih =>
    cases hfind : find name with
    | none => cases bound <;> simp [bindAll, hfind]
    | some a =>
      cases hrest : bindAll find missing rest with
      | error defect =>
        have hnone (others : List α) : rest.map find ≠ others.map some := by
          intro h
          cases hrest.symm.trans (ih.mpr h)
        cases bound with
        | nil => simp [bindAll, hfind, hrest]
        | cons b others => simp [bindAll, hfind, hrest, hnone]
      | ok others =>
        have hothers := ih.mp hrest
        cases bound with
        | nil => simp [bindAll, hfind, hrest]
        | cons b others' =>
          simp only [bindAll, hfind, hrest, hothers, Except.ok.injEq, List.cons.injEq,
            List.map_cons, Option.some.injEq]
          rw [List.map_inj_right fun _ _ => Option.some.inj]

theorem mem_of_bindAll (h : bindAll find missing names = .ok bound) {a : α} (ha : a ∈ bound) :
    ∃ name, find name = some a := by
  have hmem : some a ∈ names.map find := bindAll_eq_ok_iff.mp h ▸ List.mem_map_of_mem ha
  obtain ⟨name, -, hname⟩ := List.mem_map.mp hmem
  exact ⟨name, hname⟩

theorem length_of_bindAll (h : bindAll find missing names = .ok bound) :
    bound.length = names.length := by
  have hlength := congrArg List.length (bindAll_eq_ok_iff.mp h)
  rw [List.length_map, List.length_map] at hlength
  exact hlength.symm

end Bind

/-- What a machine that was built consists of. -/
theorem parts_of_build {host : Implementations C} {m : Machine C} (h : build d host = .ok m) :
    m.tree = (Layout.of d).toTree ∧
    (∃ actions, bindAll host.actions.find? (.unknownAction m.tree.id) m.tree.actions = .ok actions ∧
      m.actions = actions.toArray) ∧
    ∃ services, bindAll host.services.find? (.unknownService m.tree.id) m.tree.services =
      .ok services ∧ m.services = services.toArray := by
  unfold build at h
  split at h
  case h_1 => cases h
  case h_2 tree htree =>
    have hsame : tree = (Layout.of d).toTree := by
      unfold StateTree.build at htree
      split at htree <;> cases htree
      rfl
    split at h
    case h_1 => cases h
    case h_2 actions hactions =>
      split at h
      case h_1 => cases h
      case h_2 services hservices =>
        cases h
        exact ⟨hsame, ⟨actions, hactions, rfl⟩, services, hservices, rfl⟩

theorem silent_of_build {host : Implementations C} {m : Machine C} (h : build d host = .ok m)
    (hhost : host.Silent) : m.Silent := by
  obtain ⟨-, ⟨actions, hactions, hm⟩, services, hservices, hm'⟩ := parts_of_build h
  constructor
  case actions =>
    intro a
    rw [action]
    cases hfind : m.actions[a.index]? with
    | none => exact fun _ _ _ => rfl
    | some b =>
      rw [hm, List.getElem?_toArray] at hfind
      obtain ⟨name, hname⟩ := mem_of_bindAll hactions (List.mem_of_getElem? hfind)
      obtain ⟨e, he, rfl⟩ := Dict.mem_of_find? hname
      exact hhost.actions e he
  case services =>
    intro s
    rw [service]
    cases hfind : m.services[s.index]? with
    | none => exact fun _ => ⟨rfl, nofun⟩
    | some b =>
      rw [hm', List.getElem?_toArray] at hfind
      obtain ⟨name, hname⟩ := mem_of_bindAll hservices (List.mem_of_getElem? hfind)
      obtain ⟨e, he, rfl⟩ := Dict.mem_of_find? hname
      exact hhost.services e he

/-- Machines of one definition differ only in their actions if they have the same services. -/
theorem control_of_build {host : Implementations C} {host' : Implementations D} {m : Machine C}
    {m' : Machine D} (h : build d host = .ok m) (h' : build d host' = .ok m')
    (hservices : host.services = host'.services) : m.control = m'.control := by
  obtain ⟨htree, -, services, hbound, hm⟩ := parts_of_build h
  obtain ⟨htree', -, services', hbound', hm'⟩ := parts_of_build h'
  have hsame : m.tree = m'.tree := htree.trans htree'.symm
  rw [hsame, hservices, hbound'] at hbound
  cases hbound
  rw [control, control, hsame, hm, hm']

end Machine

namespace Interpreter

variable {C D : Type} {i j k : Interpreter C}

/-! ### Going on to the end -/

/-- Messages are processed until there is nothing to do. -/
structure Exhausts (i j : Interpreter C) : Prop where
  handles : Handles i j
  idle : j.status ≠ .running ∨ j.queue = []

/-- The queue is processed again and again, until no action fails any more. -/
inductive Settles : Interpreter C → Interpreter C → Prop
  | done {i j : Interpreter C} {fuel : Nat} (h : i.drain fuel = (j, .done)) : Settles i j
  | again {i j k : Interpreter C} {fuel : Nat} {fault : Fault}
      (h : i.drain fuel = (k, .failed fault)) (hk : Settles k j) : Settles i j

theorem Settles.exhausts (h : Settles i j) : Exhausts i j := by
  induction h with
  | @done i j fuel h =>
    have hhandles := drain_handles fuel i
    have hend : (i.drain fuel).2 = .done := congrArg Prod.snd h
    have hdone := drain_done hend
    rw [h] at hhandles hdone
    refine ⟨hhandles, ?_⟩
    by_cases hs : j.status = .running
    · exact .inr (hdone hs)
    · exact .inl hs
  | @again i j k fuel fault h _ ih =>
    have hhandles := drain_handles fuel i
    rw [h] at hhandles
    exact ⟨hhandles.trans ih.handles, ih.idle⟩

theorem Handles.dropped (h : Handles i j) (hd : i.dropped = false) : j.dropped = false := by
  induction h with
  | refl => exact hd
  | cons hs hqueue _ ih => exact ih (handle_dropped _ hs hd _ _)

/-- **Going on to the end comes to the same for both.** -/
theorem Twin.exhausts {i' j' : Interpreter D} (h : Twin i i') (hij : Exhausts i j)
    (hij' : Exhausts i' j') : Twin j j' := by
  obtain ⟨hhandles, hidle⟩ := hij
  obtain ⟨hhandles', hidle'⟩ := hij'
  -- Neither can come to its end before the other one, for their queues are the same all the time.
  induction hhandles generalizing i' with
  | refl i =>
    cases hhandles' with
    | refl => exact h
    | cons hs hqueue _ =>
      rw [h.status, h.queue, hs, hqueue] at hidle
      simp at hidle
  | @cons i j e rest hs hqueue _ ih =>
    cases hhandles' with
    | refl =>
      rw [← h.status, ← h.queue, hs, hqueue] at hidle'
      simp at hidle'
    | cons hs' hqueue' hhandles' =>
      rw [h.queue, hqueue'] at hqueue
      cases hqueue
      exact ih (h.handle e rest) hidle hhandles'

/-! ### There is an end -/

/-- Nothing was sent from `i` to `j`. -/
structure Hushed (i j : Interpreter C) : Prop where
  silent : j.Silent
  queue : j.queue = i.queue

theorem Hushed.trans (hij : Hushed i j) (hjk : Hushed j k) : Hushed i k :=
  ⟨hjk.silent, hjk.queue.trans hij.queue⟩

theorem Hushed.foldl {α : Type} {f : Interpreter C → α → Interpreter C} {l : List α}
    (hi : i.Silent) (hstep : ∀ i, i.Silent → ∀ a ∈ l, Hushed i (f i a)) :
    Hushed i (l.foldl f i) := by
  induction l generalizing i with
  | nil => exact ⟨hi, rfl⟩
  | cons a rest ih =>
    have ha := hstep i hi a List.mem_cons_self
    exact ha.trans (ih ha.silent fun i hi b hb => hstep i hi b (List.mem_cons_of_mem a hb))

theorem queue_of_control {c : Interpreter Unit} (h : i.control = c) : i.queue = c.queue :=
  congrArg Interpreter.queue h

theorem Silent.leave (hi : i.Silent) (s : StateId) : Hushed i (i.leave s) := by
  have hstopped : Hushed i (i.stopInvocations s) := by
    refine Hushed.foldl hi fun k hk v hv => ⟨hk.stopInvocation v, ?_⟩
    have hv : v.handle.Silent :=
      hi.invocations v (List.mem_of_mem_filter (List.mem_reverse.mp hv))
    exact queue_of_control (control_stopInvocation k hv)
  exact hstopped.trans (Hushed.foldl hstopped.silent fun k hk t _ =>
    ⟨⟨hk.machine, hk.invocations, hk.observers⟩, rfl⟩)

theorem Silent.enter (hi : i.Silent) (s : StateId) : Hushed i (i.enter s) := by
  have hstarted : Hushed i ((i.tree.node s).invoke.foldl (Interpreter.startInvocation s) i) :=
    Hushed.foldl hi fun k hk v _ => ⟨hk.startInvocation s v,
      queue_of_control (control_startInvocation hk.machine s v)⟩
  refine hstarted.trans (Hushed.foldl hstarted.silent fun k hk delay _ => ?_)
  unfold armTimer
  split
  · exact ⟨⟨hk.machine, hk.invocations, hk.observers⟩, rfl⟩
  · exact ⟨⟨hk.machine, hk.invocations, hk.observers⟩, rfl⟩

theorem Silent.shift (hi : i.Silent) (exit entry : List StateId) (c : Configuration)
    (status : Status) : Hushed i (i.shift exit entry c status) := by
  have hleft : Hushed i (i.leaveAll exit) := Hushed.foldl hi fun k hk s _ => hk.leave s
  have hmoved : Hushed i { i.leaveAll exit with configuration := c, status } :=
    ⟨⟨hleft.silent.machine, hleft.silent.invocations, hleft.silent.observers⟩, hleft.queue⟩
  exact hmoved.trans (Hushed.foldl hmoved.silent fun k hk s _ => hk.enter s)

theorem Silent.react (hi : i.Silent) (e : Entry C) (event : Event) (actions : List ActionId)
    (remember : Interpreter C → History) : Hushed i (i.react e event actions remember).1 := by
  obtain ⟨hcontrol, hsilent⟩ := hi.control_react e event actions remember
  exact ⟨hsilent, queue_of_control hcontrol⟩

theorem Silent.take (hi : i.Silent) (tr : Transition) (event : Event) :
    Hushed i (i.take tr event).1 := by
  have hshifted : Hushed i (i.shiftAlong tr) := hi.shift _ _ _ _
  rw [take_eq]
  exact hshifted.trans (hshifted.silent.react _ _ _ _)

theorem Silent.launch (hi : i.Silent) : Hushed i i.launch.1 := by
  have hshifted := hi.shift [] (Configuration.initial i.tree).states (.initial i.tree) .running
  rw [Interpreter.launch]
  exact hshifted.trans (hshifted.silent.react _ _ _ _)

/-- A machine that runs and is stopped has nothing left to do. -/
theorem Silent.stop (hi : i.Silent) (hs : i.status = .running) :
    i.stop.1.Silent ∧ i.stop.1.queue = [] := by
  have hshifted := hi.shift i.configuration.innermostFirst [] .empty .stopped
  have hdiscarded : (i.shift i.configuration.innermostFirst [] .empty .stopped).discard.Silent :=
    ⟨hshifted.silent.machine, hshifted.silent.invocations, hshifted.silent.observers⟩
  have hreact := hdiscarded.react .stopped .stop
    (i.configuration.innermostFirst.flatMap fun s => (i.tree.node s).exit) Interpreter.history
  rw [stop_eq hs]
  exact ⟨hreact.silent, hreact.queue⟩

theorem Silent.twin (hi : i.Silent) : Twin i i := ⟨rfl, hi, hi⟩

/-- The queue gets shorter with every message. -/
theorem Silent.queue_handle (hi : i.Silent) (hs : i.status = .running) (e : Envelope)
    (rest : List Envelope) : (i.handle e rest).1.queue.length ≤ rest.length := by
  have hpulled : (i.pull e rest).Silent := ⟨hi.machine, hi.invocations, hi.observers⟩
  cases e with
  | event event origin =>
    simp only [handle, process, processEvent]
    split
    · exact Nat.le_refl _
    · split
      · exact Nat.le_of_eq (congrArg List.length (hpulled.take _ _).queue)
      · exact Nat.le_refl _
  | timer id =>
    have hdrawn : { i.pull (.timer id) rest with
        timers := (i.pull (.timer id) rest).timers.filter fun u => u.id != id }.Silent :=
      ⟨hi.machine, hi.invocations, hi.observers⟩
    simp only [handle, process, processTimer]
    split
    · exact Nat.le_refl _
    · split
      · split
        · exact Nat.le_of_eq (congrArg List.length (hdrawn.take _ _).queue)
        · exact Nat.le_refl _
      · exact Nat.le_refl _
  | stop =>
    have hempty : (i.handle .stop rest).1.queue = [] := (hpulled.stop hs).2
    simp [hempty]

theorem Settles.cons {e : Envelope} {rest : List Envelope} (hs : i.status = .running)
    (hqueue : i.queue = e :: rest) (h : Settles (i.handle e rest).1 j) : Settles i j := by
  cases hfault : (i.handle e rest).2 with
  | some fault =>
    have hdrain : i.drain 1 = ((i.handle e rest).1, .failed fault) := by
      rw [drain_succ hs hqueue]
      simp only [hfault]
    exact .again hdrain h
  | none =>
    have hdrain (fuel : Nat) : i.drain (fuel + 1) = (i.handle e rest).1.drain fuel := by
      rw [drain_succ hs hqueue]
      simp only [hfault]
    cases h with
    | @done _ _ fuel h => exact .done ((hdrain fuel).trans h)
    | @again _ _ _ fuel fault h hk => exact .again ((hdrain fuel).trans h) hk

/-- **Whoever goes on comes to an end.** -/
theorem Silent.exists_settles (hi : i.Silent) : ∃ j, Settles i j := by
  -- As nothing is sent meanwhile, every message makes the queue shorter.
  induction hn : i.queue.length using Nat.strongRecOn generalizing i with
  | ind n ih =>
    rcases i.idle_or_busy with hidle | ⟨e, rest, hs, hqueue⟩
    · exact ⟨i, .done (drain_idle hidle 0)⟩
    · have hshorter : (i.handle e rest).1.queue.length < n := by
        have hle := hi.queue_handle hs e rest
        rw [hqueue, List.length_cons] at hn
        omega
      obtain ⟨j, hj⟩ := ih _ hshorter (hi.twin.handle e rest).left rfl
      exact ⟨j, .cons hs hqueue hj⟩

theorem Silent.exists_drain (hi : i.Silent) : ∃ fuel, (i.drain fuel).2 ≠ .unfinished := by
  obtain ⟨j, hj⟩ := hi.exists_settles
  cases hj with
  | @done _ _ fuel h => exact ⟨fuel, by simp [h]⟩
  | @again _ _ _ fuel fault h _ => exact ⟨fuel, by simp [h]⟩

end Interpreter

/-! ### Runs from outside -/

theorem History.records_of_untimed {h h' : History} (hsame : h.untimed = h'.untimed) :
    (h.records.map fun r => (r.event, r.source, r.destination)) =
      h'.records.map fun r => (r.event, r.source, r.destination) := by
  have hrecords (h : History) : (h.records.map fun r => (r.event, r.source, r.destination)) =
      h.untimed.records.map fun r => (r.event, r.source, r.destination) := by
    rw [History.untimed, List.map_map]
    rfl
  rw [hrecords h, hsame, ← hrecords h']

/-- What an interpreter is made to do, or what reaches it from outside. -/
inductive Stimulus where
  | start
  | send (event : Event)
  | stop
  /-- what waits is processed -/
  | drain
  /-- a handle posts an event -/
  | post (event : Event)
  /-- a handle posts the request to stop -/
  | requestStop
  /-- an emitter posts an event -/
  | emit (origin : InvocationId) (event : Event)
  /-- the delay of a timer elapses -/
  | elapse (timer : TimerId)
  /-- the next start will find a clock, or none -/
  | provideClock (present : Bool)

/-- The call that a stimulus is. Where messages are processed, `fuel` bounds their number. -/
def Stimulus.call {C : Type} (fuel : Nat) : Stimulus → Call C
  | start => .start fuel
  | send event => .send fuel event
  | stop => .stop
  | drain => .drain fuel
  | post event => .post event
  | requestStop => .requestStop
  | emit origin event => .emit origin event
  | elapse timer => .elapse timer
  | provideClock present => .provideClock present

/-- Nothing is done at once: a message is left in the queue, or there is a clock from now on. -/
def Stimulus.isPassive : Stimulus → Bool
  | post _ | requestStop | emit .. | elapse _ | provideClock _ => true
  | _ => false

/-- The call is about time or about observers, and these send nothing. -/
def Call.Attends {C : Type} : Call C → Prop
  | subscribe observer => Observer.Silent observer
  | unsubscribe _ | tick _ => True
  | _ => False

namespace Interpreter

variable {C D : Type} {i j k : Interpreter C}

theorem Twin.enact {i' : Interpreter D} (h : Twin i i') (x : Stimulus) (fuel fuel' : Nat) :
    Twin (i.enact (x.call fuel)) (i'.enact (x.call fuel')) := by
  have hpost (e : Envelope) : Twin (i.post e) (i'.post e) := by
    rw [post, post, isOpen, isOpen, h.dropped]
    split
    · exact h.enqueue e
    · exact h
  cases x with
  | start =>
    simp only [Stimulus.call, Interpreter.enact, h.status, h.tree, h.hasClock]
    split
    · exact h.launch
    · exact h
  | send event =>
    simp only [Stimulus.call, Interpreter.enact, h.status]
    split
    · exact h.note _ _
    · exact h.enqueue _
  | stop => exact h.stop
  | drain => exact h
  | post event => exact hpost _
  | requestStop => exact hpost _
  | emit origin event =>
    simp only [Stimulus.call, Interpreter.enact, carryOut, emit, h.isAlive]
    split
    · exact h.enqueue _
    · exact h
  | elapse timer => exact hpost _
  | provideClock present =>
    have hs : (i.status == .notStarted) = (i'.status == .notStarted) := by rw [h.status]
    simp only [Stimulus.call, Interpreter.enact, carryOut]
    rw [hs]
    split
    · exact h.alter (fun c => { c with hasClock := present }) ⟨rfl, rfl, rfl, rfl⟩
        ⟨rfl, rfl, rfl, rfl⟩
    · exact h

theorem Silent.exists_returns (hi : i.Silent) (x : Stimulus) :
    ∃ fuel, i.outcome (x.call fuel) ≠ .unfinished := by
  cases x with
  | start =>
    cases hs : i.status with
    | running => exact ⟨0, by simp [Stimulus.call, outcome, Interpreter.start, hs]⟩
    | stopped => exact ⟨0, by simp [Stimulus.call, outcome, Interpreter.start, hs]⟩
    | notStarted =>
      by_cases hclock : i.Clocked
      · obtain ⟨fuel, hfuel⟩ := hi.launch.silent.exists_drain
        refine ⟨fuel, ?_⟩
        rw [Stimulus.call, outcome, start_eq fuel hs hclock]
        split
        · simp
        · exact hfuel
      · exact ⟨0, by simp [Stimulus.call, outcome, start_refused hs hclock]⟩
  | send event =>
    have henqueued : (i.enqueue (.event event none)).Silent :=
      ⟨hi.machine, hi.invocations, hi.observers⟩
    obtain ⟨fuel, hfuel⟩ := henqueued.exists_drain
    refine ⟨fuel, ?_⟩
    cases hs : i.status <;> simp [Stimulus.call, outcome, send, hs, hfuel]
  | drain => exact hi.exists_drain
  | _ => exact ⟨0, by simp [Stimulus.call, outcome]⟩

/-- Some watch, and time goes by. -/
theorem control_attends (i : Interpreter C) {c : Call C} (hc : c.Attends) :
    (i.perform c).control = i.control := by
  unfold perform
  split
  · rfl
  · cases c with
    | subscribe observer => rfl
    | unsubscribe subscription => rfl
    | tick now => rfl
    | _ => exact hc.elim

theorem Silent.attends (hi : i.Silent) {c : Call C} (hc : c.Attends) : (i.perform c).Silent := by
  unfold perform
  split
  · exact hi
  · cases c with
    | subscribe observer =>
      refine ⟨hi.machine, hi.invocations, ?_⟩
      intro o ho
      rcases List.mem_append.mp ho with ho | ho
      · exact hi.observers o ho
      · rw [List.mem_singleton.mp ho]
        exact hc
    | unsubscribe subscription =>
      exact ⟨hi.machine, hi.invocations, fun o ho => hi.observers o (List.mem_of_mem_filter ho)⟩
    | tick now => exact ⟨hi.machine, hi.invocations, hi.observers⟩
    | _ => exact hc.elim

/-- Who watches makes no difference. -/
theorem after_attends (hi : i.Silent) {watch : List (Call C)} (hwatch : ∀ c ∈ watch, c.Attends) :
    (i.after watch).Silent ∧ (i.after watch).control = i.control := by
  induction watch generalizing i with
  | nil => exact ⟨hi, rfl⟩
  | cons c rest ih =>
    obtain ⟨hc, hrest⟩ := List.forall_mem_cons.mp hwatch
    obtain ⟨hsilent, hcontrol⟩ := ih (hi.attends hc) hrest
    exact ⟨hsilent, hcontrol.trans (control_attends i hc)⟩

theorem Twin.attends {i' : Interpreter D} (h : Twin i i') {watch : List (Call C)}
    {watch' : List (Call D)} (hwatch : ∀ c ∈ watch, c.Attends)
    (hwatch' : ∀ c ∈ watch', c.Attends) : Twin (i.after watch) (i'.after watch') := by
  obtain ⟨hsilent, hcontrol⟩ := after_attends h.left hwatch
  obtain ⟨hsilent', hcontrol'⟩ := after_attends h.right hwatch'
  exact ⟨hcontrol.trans (h.control.trans hcontrol'.symm), hsilent, hsilent'⟩

/-- From `i` to `j` the stimuli follow one another. After each call the queue is processed to its
end, be it that actions fail, and in between observers come and go and time goes by. -/
inductive Driven : Interpreter C → List Stimulus → Interpreter C → Prop
  | nil {i : Interpreter C} {watch : List (Call C)} (hwatch : ∀ c ∈ watch, c.Attends) :
      Driven i [] (i.after watch)
  | passive {i j : Interpreter C} {watch : List (Call C)} {x : Stimulus} {xs : List Stimulus}
      (hwatch : ∀ c ∈ watch, c.Attends) (hx : x.isPassive = true)
      (h : Driven ((i.after watch).perform (x.call 0)) xs j) : Driven i (x :: xs) j
  | call {i j k : Interpreter C} {watch : List (Call C)} {x : Stimulus} {xs : List Stimulus}
      {fuel : Nat} (hwatch : ∀ c ∈ watch, c.Attends) (hx : x.isPassive = false)
      (hreturns : (i.after watch).outcome (x.call fuel) ≠ .unfinished)
      (hsettles : Settles ((i.after watch).perform (x.call fuel)) k) (h : Driven k xs j) :
      Driven i (x :: xs) j

theorem perform_passive (hd : i.dropped = false) {x : Stimulus} (hx : x.isPassive = true) :
    i.perform (x.call 0) = i.enact (x.call 0) ∧ (i.perform (x.call 0)).dropped = false := by
  have hperform : i.perform (x.call 0) = i.enact (x.call 0) := by
    cases x with
    | start => simp [Stimulus.isPassive] at hx
    | send => simp [Stimulus.isPassive] at hx
    | stop => simp [Stimulus.isPassive] at hx
    | drain => simp [Stimulus.isPassive] at hx
    | _ => exact perform_of_kept hd _
  refine ⟨hperform, hperform ▸ enact_dropped hd ?_⟩
  cases x <;> simp [Stimulus.call]

theorem exhausts_of_settles (hd : i.dropped = false) {x : Stimulus} {fuel : Nat}
    (h : Settles (i.perform (x.call fuel)) k) :
    Exhausts (i.enact (x.call fuel)) k ∧ k.dropped = false := by
  have hcall : x.call fuel ≠ (.drop : Call C) := by cases x <;> simp [Stimulus.call]
  obtain ⟨hhandles, hidle⟩ := h.exhausts
  rw [perform_of_kept hd] at hhandles
  have hall := (carryOut_handles i (x.call fuel)).trans hhandles
  exact ⟨⟨hall, hidle⟩, hall.dropped (enact_dropped hd hcall)⟩

theorem Twin.driven {i' j' : Interpreter D} {xs : List Stimulus} (h : Twin i i')
    (hd : i.dropped = false) (hij : Driven i xs j) (hij' : Driven i' xs j') : Twin j j' := by
  induction hij generalizing i' with
  | nil hwatch =>
    cases hij' with
    | nil hwatch' => exact h.attends hwatch hwatch'
  | @passive i j watch x xs hwatch hx _ ih =>
    cases hij' with
    | @passive _ _ watch' _ _ hwatch' _ hlater' =>
      have hwatched := h.attends hwatch hwatch'
      have hthere : (i.after watch).dropped = false :=
        (congrArg Interpreter.dropped (after_attends h.left hwatch).2).trans hd
      obtain ⟨hperform, hk⟩ := perform_passive hthere hx
      obtain ⟨hperform', -⟩ := perform_passive (hwatched.dropped ▸ hthere) hx
      refine ih ?_ hk hlater'
      rw [hperform, hperform']
      exact hwatched.enact x 0 0
    | call _ hx' => exact absurd (hx.symm.trans hx') (by simp)
  | @call i j k watch x xs fuel hwatch hx _ hsettles _ ih =>
    cases hij' with
    | passive _ hx' => exact absurd (hx.symm.trans hx') (by simp)
    | @call _ _ k' watch' _ _ fuel' hwatch' _ _ hsettles' hlater' =>
      have hwatched := h.attends hwatch hwatch'
      have hthere : (i.after watch).dropped = false :=
        (congrArg Interpreter.dropped (after_attends h.left hwatch).2).trans hd
      obtain ⟨hexhausts, hk⟩ := exhausts_of_settles hthere hsettles
      obtain ⟨hexhausts', -⟩ := exhausts_of_settles (hwatched.dropped ▸ hthere) hsettles'
      exact ih ((hwatched.enact x fuel fuel').exhausts hexhausts hexhausts') hk hlater'

theorem Handles.silent (h : Handles i j) (hi : i.Silent) : j.Silent := by
  induction h with
  | refl => exact hi
  | cons hs hqueue _ ih => exact ih (hi.twin.handle _ _).left

/-- **There is a run for any stimuli.** -/
theorem Silent.exists_driven (hi : i.Silent) (hd : i.dropped = false) (xs : List Stimulus) :
    ∃ j, Driven i xs j := by
  induction xs generalizing i with
  | nil => exact ⟨i, @Driven.nil C i [] nofun⟩
  | cons x rest ih =>
    cases hx : x.isPassive with
    | true =>
      obtain ⟨hperform, hthere⟩ := perform_passive hd hx
      have hperformed : (i.perform (x.call 0)).Silent := hperform ▸ (hi.twin.enact x 0 0).left
      obtain ⟨j, hj⟩ := ih hperformed hthere
      exact ⟨j, @Driven.passive C i j [] x rest nofun hx hj⟩
    | false =>
      obtain ⟨fuel, hfuel⟩ := hi.exists_returns x
      have henacted := (hi.twin.enact x fuel fuel).left
      have hperformed : (i.perform (x.call fuel)).Silent := by
        rw [perform_of_kept hd]
        exact (carryOut_handles i (x.call fuel)).silent henacted
      obtain ⟨k, hk⟩ := hperformed.exists_settles
      obtain ⟨hexhausts, hthere⟩ := exhausts_of_settles hd hk
      obtain ⟨j, hj⟩ := ih (hexhausts.handles.silent henacted) hthere
      exact ⟨j, @Driven.call C i j k [] x rest fuel nofun hx hfuel hk hj⟩

theorem silent_fresh {m : Machine C} (hm : m.Silent) (context : C) (limit : Nat) :
    ((Interpreter.new m context).withHistoryLimit limit).Silent := ⟨hm, nofun, nofun⟩

/-- **Outcomes of actions do not influence the control.** Take two hosts with the same services for
one definition, which send nothing; their actions may do anything to their contexts, and may fail
wherever they like. Driven by the same stimuli, where the queue is processed to its end after each
call, two interpreters agree on everything but their contexts, their observers and their clocks;
and there is such a run for any stimuli. -/
theorem Driven.agree {d : Definition} {host : Implementations C} {host' : Implementations D}
    {m : Machine C} {m' : Machine D} (hm : Machine.build d host = .ok m)
    (hm' : Machine.build d host' = .ok m') (hservices : host.services = host'.services)
    (hsilent : host.Silent) (hsilent' : host'.Silent) (context : C) (context' : D) (limit : Nat)
    (xs : List Stimulus) :
    (∃ i, Driven ((Interpreter.new m context).withHistoryLimit limit) xs i) ∧
    (∃ i, Driven ((Interpreter.new m' context').withHistoryLimit limit) xs i) ∧
    ∀ i i', Driven ((Interpreter.new m context).withHistoryLimit limit) xs i →
      Driven ((Interpreter.new m' context').withHistoryLimit limit) xs i' →
      i.status = i'.status ∧ i.configuration = i'.configuration ∧
      i.runningInvocations = i'.runningInvocations ∧ i.armedTimers = i'.armedTimers ∧
      i.lastEvent = i'.lastEvent ∧
      (i.history.records.map fun r => (r.event, r.source, r.destination)) =
        i'.history.records.map fun r => (r.event, r.source, r.destination) := by
  have hfresh := silent_fresh (Machine.silent_of_build hm hsilent) context limit
  have hfresh' := silent_fresh (Machine.silent_of_build hm' hsilent') context' limit
  refine ⟨hfresh.exists_driven rfl xs, hfresh'.exists_driven rfl xs, ?_⟩
  intro i i' hi hi'
  have hcontrol : ((Interpreter.new m context).withHistoryLimit limit).control =
      ((Interpreter.new m' context').withHistoryLimit limit).control :=
    congrArg (fun c => ((Interpreter.new c ()).withHistoryLimit limit).control)
      (Machine.control_of_build hm hm' hservices)
  have htwin : Twin ((Interpreter.new m context).withHistoryLimit limit)
      ((Interpreter.new m' context').withHistoryLimit limit) := ⟨hcontrol, hfresh, hfresh'⟩
  have h := htwin.driven rfl hi hi'
  refine ⟨h.status, h.configuration, ?_, ?_, congrArg Interpreter.lastEvent h.control,
    History.records_of_untimed h.history⟩
  · rw [runningInvocations, runningInvocations, h.invocations, h.tree]
  · rw [armedTimers, armedTimers, h.timers, h.tree]

end Interpreter

/-! ### Two fuses -/

theorem silent_fuseHost : fuseHost.Silent :=
  ((Implementations.silent_none.action fun _ _ _ => rfl).action fun _ _ _ => rfl).action
    fun _ _ _ => rfl

/-- The host of a fuse where it is the counting that fails. -/
def forgetfulHost : Implementations Nat :=
  ((Implementations.none.action "count" { Action.idle with effect := fun n _ => (n, some ⟨"lost"⟩) }
    ).action "melt" .idle).action "warn" .idle

theorem silent_forgetfulHost : forgetfulHost.Silent :=
  ((Implementations.silent_none.action fun _ _ _ => rfl).action fun _ _ _ => rfl).action
    fun _ _ _ => rfl

def forgetfulMachine : Machine Nat := .built fuse forgetfulHost

theorem build_forgetful : Machine.build fuse forgetfulHost = .ok forgetfulMachine :=
  Machine.build_built rfl

/-- A fuse after a surge. -/
def surged (m : Machine Nat) : Interpreter Nat :=
  (((Interpreter.new m 0).withHistoryLimit 10).perform (.start 1)).perform
    (.send 5 (.named "surge"))

theorem driven_surged {m : Machine Nat}
    (hstart : ((Interpreter.new m 0).withHistoryLimit 10).outcome (.start 1) = .done)
    (hstarted : (((Interpreter.new m 0).withHistoryLimit 10).perform (.start 1)).queue = [])
    (hsurge : (((Interpreter.new m 0).withHistoryLimit 10).perform (.start 1)).outcome
      (.send 5 (.named "surge")) ≠ .unfinished) (hsurged : (surged m).queue = []) :
    Interpreter.Driven ((Interpreter.new m 0).withHistoryLimit 10)
      [.start, .send (.named "surge")] (surged m) := by
  have hidle {i : Interpreter Nat} (h : i.queue = []) : Interpreter.Settles i i :=
    .done (Interpreter.drain_idle (.inr h) 0)
  have hreturns : ((Interpreter.new m 0).withHistoryLimit 10).outcome (.start 1) ≠ .unfinished := by
    simp [hstart]
  have hlast : Interpreter.Driven (surged m) [] (surged m) := @Interpreter.Driven.nil _ _ [] nofun
  exact @Interpreter.Driven.call _ _ _ _ [] .start _ 1 nofun rfl hreturns (hidle hstarted)
    (@Interpreter.Driven.call _ _ _ _ [] (.send (.named "surge")) _ 5 nofun rfl hsurge
      (hidle hsurged) hlast)

/-- Both fuses are blown, though one host counted the surge and the other did not. -/
theorem fuses_agree : (surged fuseMachine).context ≠ (surged forgetfulMachine).context ∧
    (surged fuseMachine).configuration = (surged forgetfulMachine).configuration := by
  have hfuse := driven_surged (m := fuseMachine) (by decide +kernel)
    (List.isEmpty_iff.mp (by decide +kernel)) (by decide +kernel)
    (List.isEmpty_iff.mp (by decide +kernel))
  have hforgetful := driven_surged (m := forgetfulMachine) (by decide +kernel)
    (List.isEmpty_iff.mp (by decide +kernel)) (by decide +kernel)
    (List.isEmpty_iff.mp (by decide +kernel))
  have hagree := (Interpreter.Driven.agree build_fuse build_forgetful rfl silent_fuseHost
    silent_forgetfulHost 0 0 10 [.start, .send (.named "surge")]).2.2 _ _ hfuse hforgetful
  exact ⟨by decide +kernel, hagree.2.1⟩

end Statechart
