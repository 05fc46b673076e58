import Statechart.Proofs.Interpreter.Queue
import Statechart.Proofs.Interpreter.Staleness
import Statechart.Proofs.Session.Requests

/-!
# The end of a run

A stop releases all that is held, throws away what waits in the queue, and only then lets host code
react (`Halted`). What is sent before that, be it by host code that is told to stop, is thrown away
with the rest; what is sent afterwards waits in vain. From then on nothing changes any more and no
host code is called (`Unmoved`), whatever a session is asked to do (`Reachable.stop_is_final`).
-/

namespace Statechart

namespace Interpreter

variable {C : Type} {i j k : Interpreter C}

/-! ### What is thrown away -/

/-- From `i` to `j` the queue is emptied once. What waited before, and what is sent while `before`
is written, is thrown away; what is sent while `after` is written waits in the end. -/
structure CutsOff (i : Interpreter C) (before after : List (Entry C)) (j : Interpreter C) :
    Prop where
  journal : j.journal.toList = i.journal.toList ++ before ++
    .discarded (i.queue ++ before.filterMap Entry.posted?).length :: after
  queue : j.queue = after.filterMap Entry.posted?

/-- What is written up to `k` comes before the queue is emptied, and what is written from there on
comes after that. -/
theorem Writes.cutsOff {es before : List (Entry C)} (h : Writes k.discard es j)
    (hjournal : k.journal.toList = i.journal.toList ++ before)
    (hqueue : k.queue = i.queue ++ before.filterMap Entry.posted?) :
    ∃ after, CutsOff i before after j ∧ after.filter (fun e => !e.isTraffic) = es := by
  obtain ⟨after, hafter, hes, hlater⟩ := h
  have hdiscard : k.discard.journal.toList = k.journal.toList ++ [.discarded k.queue.length] := by
    simp [discard, note]
  refine ⟨after, ⟨?_, hlater⟩, hes⟩
  rw [hafter, hdiscard, hjournal, hqueue, List.append_assoc]
  rfl

/-! ### What a stop comes to -/

/-- The actions on exit of all active states, innermost first. -/
def exitActions (i : Interpreter C) : List ActionId :=
  i.configuration.innermostFirst.flatMap fun s => (i.tree.node s).exit

/-- What it comes to when a running machine is stopped. All active states are left, innermost first.
So all invocations are stopped, the latest first and each with its handle, and all timers are
cancelled; what waits and what is sent meanwhile is thrown away. Then the actions on exit are run up
to the first one that fails, innermost state first and the root last, and the observers are
notified. -/
structure Halted (i : Interpreter C) (out : Interpreter C × Option Fault) : Prop where
  status : out.1.status = .stopped
  configuration : out.1.configuration = .empty
  invocations : out.1.invocations = []
  timers : out.1.timers = []
  history : out.1.history = i.history
  lastEvent : out.1.lastEvent = some .stop
  root_last : i.configuration.innermostFirst.getLast? = some i.tree.root
  context : out.1.context = i.machine.carry .stop i.context i.exitActions
  failure : out.2 = (i.machine.failure? .stop i.context i.exitActions).map fun f =>
    .actionFailed (i.tree.actionName f.1) Event.stop.name f.2
  services : out.1.services = i.services ++ i.invocations.reverse.flatMap Invocation.stopMarks
  course : ∃ before after, CutsOff i before after out.1 ∧
    before.filter (fun e => !e.isTraffic) =
      i.configuration.innermostFirst.flatMap i.leaveEntries ∧
    before.filterMap Mark.of? = i.invocations.reverse.flatMap Invocation.stopMarks ∧
    (∀ t ∈ i.timers, .timerCancelled t.id t.state ∈ before) ∧
    ∃ reports : List (Entry C), (∀ r ∈ reports, r.isReport = true) ∧
      after.filter (fun e => !e.isTraffic) =
        .stopped :: ((i.machine.attempted .stop i.context i.exitActions).map fun a =>
          .ran (i.tree.actionName a) Event.stop.name) ++ reports

/-- What it comes to when a machine is stopped that was never started: what waits is thrown away and
the observers are notified. No action is run. -/
structure Cancelled (i : Interpreter C) (out : Interpreter C × Option Fault) : Prop where
  status : out.1.status = .stopped
  failure : out.2 = none
  still : { out.1.still with status := .notStarted } = i.still
  course : ∃ after, CutsOff i [] after out.1 ∧
    after.filter (fun e => !e.isTraffic) = .stoppedUnstarted ::
      i.observers.map fun o => .observed o.1 { i.snapshot with status := .stopped }

theorem stop_cancelled (hs : i.status = .notStarted) : i.Cancelled i.stop := by
  let shut : Interpreter C := { i with status := .stopped }
  rw [stop_eq_of_notStarted hs]
  constructor
  case status => exact (untouched_notify _).status
  case failure => rfl
  case still =>
    have hstill := still_notify i.abandoned
    show { i.abandoned.notify.still with status := .notStarted } = i.still
    rw [hstill, ← hs]
    rfl
  case course =>
    have hwrites : Writes shut.discard _ i.abandoned.notify :=
      (writes_note shut.discard rfl).trans (writes_notify _)
    have hjournal : shut.journal.toList = i.journal.toList ++ [] := (List.append_nil _).symm
    exact hwrites.cutsOff hjournal (List.append_nil _).symm

/-- The host's reaction leaves a trace in the memory of the interpreter. -/
theorem react_memory (i : Interpreter C) (e : Entry C) (event : Event) (actions : List ActionId)
    (remember : Interpreter C → History) :
    (i.react e event actions remember).1.history =
      remember ((i.note e).runActions event actions).1 ∧
    (i.react e event actions remember).1.lastEvent = some event := by
  let acted := ((i.note e).runActions event actions).1
  have hstill := still_notify { acted with history := remember acted, lastEvent := some event }
  exact ⟨congrArg Interpreter.history hstill, congrArg Interpreter.lastEvent hstill⟩

/-- To leave all active states is to stop all invocations, the latest first. -/
theorem Coherent.leaving_innermostFirst (hi : i.Coherent) (hd : i.dropped = false) :
    i.leaving i.configuration.innermostFirst = i.invocations.reverse := by
  have hall := hi.reverse_invocations hd (states_eq_innermostFirst i.configuration)
  have hnone : (i.invocations.filter fun v =>
      !i.configuration.innermostFirst.contains v.state) = [] := by
    refine List.filter_eq_nil_iff.mpr fun v hv => ?_
    have hactive := hi.state_mem_of_invocation hv
    simpa [Configuration.innermostFirst] using hactive
  rw [hnone, List.reverse_nil, List.append_nil] at hall
  exact hall.symm

/-- What is written while all active states are left. -/
theorem Coherent.halt_course (hi : i.Coherent) (hd : i.dropped = false) (hclock : i.Clocked) :
    let left := i.shift i.configuration.innermostFirst [] .empty .stopped
    ∃ before, left.journal.toList = i.journal.toList ++ before ∧
      left.queue = i.queue ++ before.filterMap Entry.posted? ∧
      before.filter (fun e => !e.isTraffic) =
        i.configuration.innermostFirst.flatMap i.leaveEntries ∧
      before.filterMap Mark.of? = i.invocations.reverse.flatMap Invocation.stopMarks ∧
      ∀ t ∈ i.timers, .timerCancelled t.id t.state ∈ before := by
  intro left
  have hnodup : i.configuration.innermostFirst.Nodup := List.nodup_reverse.mpr hi.nodup
  obtain ⟨before, hjournal, hes, hqueue⟩ := hi.numbered.writes_leaveAll hnodup
  have hwritten : left.journal.toList = i.journal.toList ++ before := hjournal
  refine ⟨before, hwritten, hqueue, hes, ?_, ?_⟩
  · have hlog : left.marks = i.marks ++ before.filterMap Mark.of? := by
      rw [marks, log, hwritten, List.filterMap_append]
      rfl
    have hmarks := hi.numbered.marks_shift hclock hnodup [] .empty .stopped
    rw [hi.leaving_innermostFirst hd] at hmarks
    exact List.append_cancel_left (hlog.symm.trans (hmarks.trans (List.append_nil _)))
  · intro t ht
    have hactive : t.state ∈ i.configuration.innermostFirst :=
      List.mem_reverse.mpr (hi.state_mem ht)
    have hmem : .timerCancelled t.id t.state ∈ i.leaveEntries t.state :=
      List.mem_append_right _ (List.mem_map.mpr ⟨t, List.mem_filter.mpr ⟨ht, by simp⟩, rfl⟩)
    have hleft := List.mem_flatMap.mpr ⟨t.state, hactive, hmem⟩
    rw [← hes] at hleft
    exact List.mem_of_mem_filter hleft

/-- **A stop of a running machine** releases everything, empties the queue, and then runs the
actions on exit. -/
theorem Coherent.stop_halted (hi : i.Coherent) (hs : i.status = .running)
    (hd : i.dropped = false) : i.Halted i.stop := by
  let left := i.shift i.configuration.innermostFirst [] .empty .stopped
  have hstop : i.stop = left.discard.react .stopped .stop i.exitActions Interpreter.history :=
    stop_eq hs
  have hcoherent : i.stop.1.Coherent := Round.coherent (.stop hd) hi
  have hstatus := i.stop_status
  obtain ⟨-, hinvocations, htimers⟩ := hcoherent.nothing_held (by simp [hstatus])
  have hmachine : left.discard.machine = i.machine := shift_machine ..
  have hcontext : left.discard.context = i.context := shift_context ..
  have htree : left.discard.tree = i.tree := congrArg Machine.tree hmachine
  constructor
  case status => exact hstatus
  case configuration => exact hcoherent.idle (by simp [hstatus])
  case invocations => exact hinvocations
  case timers => exact htimers
  case history =>
    rw [hstop, (react_memory left.discard _ _ _ _).1]
    exact (sameBody_runActions _ _ _).history.trans (shift_history ..)
  case lastEvent => rw [hstop, (react_memory left.discard _ _ _ _).2]
  case root_last =>
    obtain ⟨leaf, hleaf⟩ := hi.running hs
    rw [Configuration.innermostFirst, List.getLast?_reverse]
    exact (hi.tree.isPath_of_endsAt hleaf).root
  case context => rw [hstop, react_context, hmachine, hcontext]
  case failure => rw [hstop, react_failure, htree, hmachine, hcontext]
  case services =>
    have hnodup : i.configuration.innermostFirst.Nodup := List.nodup_reverse.mpr hi.nodup
    have hleft := hi.numbered.services_shift (hi.clocked hs) hnodup [] .empty .stopped
    have hbrackets : i.brackets i.configuration.innermostFirst [] =
        i.invocations.reverse.map .closes := by
      rw [brackets, hi.leaving_innermostFirst hd]
      exact List.append_nil _
    rw [hbrackets, Bracket.marks_closes] at hleft
    rw [hstop, (alike_react _ rfl _ _ _).services, (alike_discard left).services]
    exact hleft
  case course =>
    obtain ⟨before, hjournal, hqueue, hentries, hmarks, htimers⟩ :=
      hi.halt_course hd (hi.clocked hs)
    obtain ⟨reports, hreports, hwrites⟩ := writes_react left.discard
      (rfl : (Entry.stopped (C := C)).isTraffic = false) .stop i.exitActions Interpreter.history
    obtain ⟨after, hcut, hafter⟩ := hwrites.cutsOff hjournal hqueue
    refine ⟨before, after, ?_, hentries, hmarks, htimers, reports, hreports, ?_⟩
    · rw [hstop]
      exact hcut
    · rw [hafter, htree, hmachine, hcontext]

/-! ### After the stop -/

/-- From `i` to `j` nothing has changed but the queue, what waits in it is not taken out, and no
host code was called. -/
structure Unmoved (i j : Interpreter C) : Prop where
  status : j.status = i.status
  configuration : j.configuration = i.configuration
  context : j.context = i.context
  history : j.history = i.history
  lastEvent : j.lastEvent = i.lastEvent
  invocations : j.invocations = i.invocations
  timers : j.timers = i.timers
  dequeued : j.dequeued = i.dequeued
  hostCalls : j.hostCalls = i.hostCalls

theorem Unmoved.refl (i : Interpreter C) : Unmoved i i :=
  ⟨rfl, rfl, rfl, rfl, rfl, rfl, rfl, rfl, rfl⟩

theorem Unmoved.trans (hij : Unmoved i j) (hjk : Unmoved j k) : Unmoved i k where
  status := hjk.status.trans hij.status
  configuration := hjk.configuration.trans hij.configuration
  context := hjk.context.trans hij.context
  history := hjk.history.trans hij.history
  lastEvent := hjk.lastEvent.trans hij.lastEvent
  invocations := hjk.invocations.trans hij.invocations
  timers := hjk.timers.trans hij.timers
  dequeued := hjk.dequeued.trans hij.dequeued
  hostCalls := hjk.hostCalls.trans hij.hostCalls

theorem unmoved_note (i : Interpreter C) {e : Entry C} (hdequeued : e.dequeued? = none)
    (hcall : e.isHostCode = false) : Unmoved i (i.note e) where
  status := rfl
  configuration := rfl
  context := rfl
  history := rfl
  lastEvent := rfl
  invocations := rfl
  timers := rfl
  dequeued := by
    rw [dequeued, log_note, hdequeued]
    exact List.append_nil _
  hostCalls := hostCalls_note i hcall

/-- **Nothing moves a stopped interpreter.** -/
theorem Round.unmoved (h : Round i j) (hi : i.Coherent) (hs : i.status = .stopped) :
    Unmoved i j := by
  obtain ⟨-, hinvocations, htimers⟩ := hi.nothing_held (by simp [hs])
  cases h with
  | enqueue hd e =>
    have hnoted := i.unmoved_note (e := .enqueued e) rfl rfl
    exact { hnoted with }
  | refuse hs' event => exact i.unmoved_note rfl rfl
  | attend observers nextSubscription now => exact { Unmoved.refl i with }
  | clock hs' present => exact nomatch hs.symm.trans hs'
  | launch hs' hd hclock => exact nomatch hs.symm.trans hs'
  | handle hs' hd hqueue => exact nomatch hs.symm.trans hs'
  | stop hd =>
    rw [stop_eq_of_stopped hs]
    exact .refl i
  | drop hd =>
    have hdrop : i.drop = { i with timers := [], queue := [], dropped := true } := by
      simp [Interpreter.drop, hd, hinvocations]
    rw [hdrop]
    exact { Unmoved.refl i with timers := htimers.symm }

theorem Rounds.unmoved (h : Rounds i j) (hi : i.Coherent) (hs : i.status = .stopped) :
    Unmoved i j := by
  induction h with
  | refl => exact .refl i
  | tail hrounds hround ih =>
    exact ih.trans (hround.unmoved (Rounds.coherent hrounds hi) (ih.status.trans hs))

/-- The machine is stopped, and whatever a session is asked to do from then on comes to nothing. -/
structure Final (i : Interpreter C) : Prop where
  status : i.status = .stopped
  unmoved : ∀ (s : Session C) (requests : List (Request C)), s.interpreter = i →
    Unmoved i (s.serveAll requests).interpreter

theorem Coherent.final (hi : i.Coherent) (hs : i.status = .stopped) : i.Final := by
  refine ⟨hs, ?_⟩
  intro s requests h
  subst h
  exact (s.serveAll_rounds requests).unmoved hi hs

/-- To process the request to stop is the last thing that is done. -/
theorem drain_stop (hs : i.status = .running) {rest : List Envelope}
    (hqueue : i.queue = .stop :: rest) (fuel : Nat) :
    (i.drain (fuel + 1)).1 = (i.handle .stop rest).1 := by
  have hover : (i.handle .stop rest).1.status ≠ .running := by
    rw [handle, process, stop_status]
    simp
  rw [drain_succ hs hqueue]
  split
  · rfl
  · rw [drain_idle (.inl hover)]

/-- **A stop is total and final.** A running machine releases all that it holds, throws away what
waits, and runs the actions on exit of all active states, whether the host stops it or the request
to stop is reached in the queue; one that was not started throws away what waits and runs no action.
From then on nothing changes and no host code is called, whatever is asked for, whatever is still
sent, and whatever delays elapse. -/
theorem Reachable.stop_is_final {d : Definition} {host : Implementations C} {m : Machine C}
    (hm : Machine.build d host = .ok m) (hi : Reachable m i) :
    (i.dropped = false → i.status = .running → i.Halted i.stop ∧ i.stop.1.Final) ∧
    (i.dropped = false → i.status = .running → ∀ rest, i.queue = .stop :: rest →
      (i.pull .stop rest).Halted (i.handle .stop rest) ∧ (i.handle .stop rest).1.Final ∧
        ∀ fuel, i.perform (.drain (fuel + 1)) = (i.handle .stop rest).1) ∧
    (i.dropped = false → i.status = .notStarted → i.Cancelled i.stop ∧ i.stop.1.Final) ∧
    (i.status = .stopped → i.Final) := by
  have hcoherent := hi.coherent hm
  have hfinal {k : Interpreter C} (hk : k.Coherent) (hd : k.dropped = false) : k.stop.1.Final :=
    Coherent.final (Round.coherent (.stop hd) hk) k.stop_status
  refine ⟨?_, ?_, ?_, hcoherent.final⟩
  · intro hd hs
    exact ⟨hcoherent.stop_halted hs hd, hfinal hcoherent hd⟩
  · intro hd hs rest hqueue
    have hpulled := hcoherent.pull .stop rest
    refine ⟨hpulled.stop_halted hs hd, hfinal hpulled hd, fun fuel => ?_⟩
    rw [perform_of_kept hd]
    exact drain_stop hs hqueue fuel
  · intro hd hs
    exact ⟨stop_cancelled hs, hfinal hcoherent hd⟩

end Interpreter

/-- A ferry at sea that was asked to stop. -/
def ferryAsked : Interpreter Nat := ferryAtSea.perform .requestStop

/-- When a ferry is stopped at sea all its services are stopped, the latest first, and what the
sonar and the radar still send is thrown away. A gale that comes later is in vain. The same holds
when the request to stop is reached in the queue. -/
theorem ferryAtSea_stop_is_final :
    (ferryAtSea.status = .running ∧ ferryAtSea.stop.1.timers = [] ∧
      ferryAtSea.stop.1.services = ferryAtSea.services ++
        [.stop ⟨3⟩ "sonar", .tornDown "sonar" ⟨3⟩, .stop ⟨2⟩ "radar", .tornDown "radar" ⟨2⟩,
          .stop ⟨1⟩ "engine", .aborted ⟨1⟩, .stop ⟨0⟩ "radio"] ∧
      ferryAtSea.stop.1.posted.length = ferryAtSea.posted.length + 2 ∧
      ferryAtSea.stop.1.queue = [] ∧
      Interpreter.Unmoved ferryAtSea.stop.1
        ((Session.new ferryAtSea.stop.1).serveAll
          [.call (.send 1 (.named "blow")), .call (.start 1), .run 1]).interpreter) ∧
    ferryAsked.queue = [.stop] ∧ (ferryAsked.perform (.drain 2)).invocations = [] ∧
      (ferryAsked.perform (.drain 2)).Final := by
  have hthere : ferryAtSea.dropped = false := by decide +kernel
  have hrunning : ferryAtSea.status = .running := by decide +kernel
  have hqueue : ferryAsked.queue = [.stop] := by
    have hnone : ferryAtSea.queue = [] := List.length_eq_zero_iff.mp (by decide +kernel)
    rw [ferryAsked, Interpreter.perform_of_kept hthere, Interpreter.carryOut, Interpreter.post,
      if_pos (by decide +kernel)]
    exact congrArg (· ++ [.stop]) hnone
  obtain ⟨hhalted, hfinal⟩ :=
    (Interpreter.Reachable.stop_is_final build_ferry reachable_ferryAtSea).1 hthere hrunning
  obtain ⟨hhalted', hfinal', hdrain⟩ :=
    (Interpreter.Reachable.stop_is_final build_ferry (reachable_ferryAtSea.call .requestStop)).2.1
      (by decide +kernel) (by decide +kernel) [] hqueue
  have hstops : ferryAtSea.invocations.reverse.flatMap Invocation.stopMarks =
      [.stop ⟨3⟩ "sonar", .tornDown "sonar" ⟨3⟩, .stop ⟨2⟩ "radar", .tornDown "radar" ⟨2⟩,
        .stop ⟨1⟩ "engine", .aborted ⟨1⟩, .stop ⟨0⟩ "radio"] := by decide +kernel
  refine ⟨⟨hrunning, hhalted.timers, hstops ▸ hhalted.services, by decide +kernel,
    List.length_eq_zero_iff.mp (by decide +kernel), hfinal.unmoved _ _ rfl⟩, hqueue, ?_, ?_⟩
  · exact (congrArg Interpreter.invocations (hdrain 1)).trans hhalted'.invocations
  · exact (hdrain 1).symm ▸ hfinal'

end Statechart
