import Statechart.Proofs.Interpreter.Deliveries
import Statechart.Proofs.Interpreter.Observers

/-!
# Forecasts

To ask whether an event would be handled (`can`) does nothing, and when the event is sent it is
decided anew. Both come to the same (`Reachable.can_foretells`): while nothing else waits, an event
that can be handled has one transition taken, be it that an action fails, and of one that cannot be
handled nothing remains but notes in the journal.
-/

namespace Statechart

theorem Machine.Silent.invocation {C : Type} {m : Machine C} (hm : m.Silent) (n : Nat) (s : StateId)
    (v : Invoke) : (m.invocation n s v).handle.Silent :=
  (hm.services v.service ⟨n⟩).2

namespace Interpreter

variable {C : Type} {i j : Interpreter C} {context : C} {event : Event} {tr : Transition}

/-! ### What is true of reachable states -/

theorem Coherent.silent_shift (hi : i.Coherent) (hclock : i.Clocked) (hm : i.machine.Silent)
    (hv : ∀ v ∈ i.invocations, v.handle.Silent) (exit entry : List StateId) (c : Configuration)
    (status : Status) : ∀ v ∈ (i.shift exit entry c status).invocations, v.handle.Silent := by
  intro v hmem
  rw [(hi.numbered.shift_holdings hclock exit entry c status).invocations_eq] at hmem
  rcases List.mem_append.mp hmem with hkept | hstarted
  · exact hv v (List.mem_filter.mp hkept).1
  · obtain ⟨w, -, rfl⟩ := List.mem_map.mp hstarted
    exact hm.invocation _ _ _

theorem Coherent.silent_move (hi : i.Coherent) (hm : i.machine.Silent)
    (hv : ∀ v ∈ i.invocations, v.handle.Silent) (h : Move i j) :
    ∀ v ∈ j.invocations, v.handle.Silent := by
  cases h with
  | aside h =>
    rw [h.invocations]
    exact hv
  | launch hs hd hclock => exact hi.silent_shift hclock hm hv _ _ _ _
  | take hs hd hactive htr => exact hi.silent_shift (hi.clocked hs) hm hv _ _ _ _
  | ring hs hd ht hactive hdelay =>
    exact (hi.expire _).silent_shift ((hi.expire _).clocked hs) hm hv _ _ _ _
  | halt hs hd => exact hi.silent_shift (hi.clocked hs) hm hv _ _ _ _
  | _ => exact hv

/-- What runs sends nothing if the machine does not. -/
theorem Reachable.silent_invocations {d : Definition} {host : Implementations C} {m : Machine C}
    (hm : Machine.build d host = .ok m) (hsilent : m.Silent) (hi : Reachable m i) :
    ∀ v ∈ i.invocations, v.handle.Silent := by
  have hboth : i.machine.Silent ∧ ∀ v ∈ i.invocations, v.handle.Silent := by
    refine hi.invariant_of_coherent hm
      (P := fun i => i.machine.Silent ∧ ∀ v ∈ i.invocations, v.handle.Silent) ?_ ?_ ?_
    · exact fun _ _ => ⟨hsilent, nofun⟩
    · exact fun i j hi h hmove => ⟨hmove.machine ▸ h.1, hi.silent_move h.1 h.2 hmove⟩
    · intro i _ h hd
      rw [(sameScene_drop hd).machine, (drop_holdings hd).invocations_eq]
      exact ⟨h.1, nofun⟩
  exact hboth.2

theorem Reachable.chronicled {d : Definition} {host : Implementations C} {m : Machine C}
    (hm : Machine.build d host = .ok m) (hi : Reachable m i) : ∃ context, i.Chronicled context := by
  induction hi with
  | fresh context limit =>
    exact ⟨context, chronicled_fresh (Machine.wellFormed_of_build hm) context limit⟩
  | @call i _ c ih =>
    obtain ⟨context, h⟩ := ih
    exact ⟨context, h.rounds (perform_rounds i c)⟩

/-! ### The message of an event -/

theorem choice?_plain (i : Interpreter C) (event : Event) :
    i.choice? (.plain event) =
      (i.tree.select i.configuration event.name).map fun tr => (tr, event) := rfl

theorem can_eq_false (hs : i.status ≠ .running) (name : String) : i.can name = false := by
  rw [can, beq_eq_false_iff_ne.mpr hs, Bool.false_and]

theorem can_of_running (hs : i.status = .running) (name : String) :
    i.can name = (i.tree.select i.configuration name).isSome := by
  rw [can, hs]
  rfl

/-- Where nothing waits, to send an event is to deal with it, and that is all. -/
theorem send_eq_handle (hs : i.status = .running) (hqueue : i.queue = []) (fuel : Nat)
    (hempty : ((i.enqueue (.plain event)).handle (.plain event) []).1.queue = []) :
    i.send (fuel + 1) event = (((i.enqueue (.plain event)).handle (.plain event) []).1,
      ((i.enqueue (.plain event)).handle (.plain event) []).2.elim .done .failed) := by
  have hnext : (i.enqueue (.plain event)).queue = [.plain event] :=
    congrArg (· ++ [Envelope.plain event]) hqueue
  have hrunning : (i.enqueue (.plain event)).status = .running := hs
  rw [send_of_not_stopped (by simp [hs]), drain_succ hrunning hnext]
  cases hfault : ((i.enqueue (.plain event)).handle (.plain event) []).2 with
  | some fault => rfl
  | none => exact drain_idle (.inr hempty) fuel

/-- That a message was put into the queue before a passage makes no difference. -/
theorem Passes.of_enqueue {e : Envelope} {p : Passage} (h : Passes (i.enqueue e) p j) :
    Passes i p j :=
  have hrests := i.rests_enqueue e
  { h with
    passages := h.passages.trans (congrArg (· ++ [p]) hrests.passages)
    entrances := h.entrances.trans (congrArg (· ++ _) (hrests.log _ Entry.tells_started))
    taken := h.taken.trans (congrArg (· ++ _) (hrests.log _ Entry.tells_taken))
    ran := h.ran.trans (congrArg (· ++ _) (hrests.log _ Entry.tells_ran))
    failures := h.failures.trans (congrArg (· ++ _) (hrests.log _ Entry.tells_failed))
    sightings := h.sightings.trans (congrArg (· ++ _) (hrests.log _ Entry.tells_observed)) }

section Chronicles

variable (h : i.Chronicled context) (hs : i.status = .running) (hd : i.dropped = false)
  (hqueue : i.queue = [])

include h hs hd hqueue

/-- **An event that can be handled is**, whether or not an action fails. -/
theorem Chronicled.send_passes (hsilent : i.Silent)
    (hselect : i.tree.select i.configuration event.name = some tr) (fuel : Nat) :
    Passes i (.crossing i.configuration tr event) (i.send (fuel + 1) event).1 ∧
    (i.send (fuel + 1) event).1.queue = [] ∧
    (i.send (fuel + 1) event).2 = (((i.machine.failure? event i.context
      (i.tree.plan i.configuration tr).actions).map fun f =>
        Fault.actionFailed (i.tree.actionName f.1) event.name f.2).elim .done .failed) := by
  have hk : (i.enqueue (.plain event)).Chronicled context := h.round (.enqueue hd _)
  have hchoice : (i.enqueue (.plain event)).choice? (.plain event) = some (tr, event) :=
    (choice?_plain _ event).trans (congrArg (Option.map fun tr => (tr, event)) hselect)
  have hksilent : (i.enqueue (.plain event)).Silent :=
    ⟨hsilent.machine, hsilent.invocations, hsilent.observers⟩
  have hempty := (hksilent.handle_plain event []).2.1
  have hhandle := (hk.coherent.handle_of_some hchoice []).2
  have henacted := take_enacted ((i.enqueue (.plain event)).draw (.plain event) []) tr event
  rw [send_eq_handle hs hqueue fuel hempty]
  refine ⟨(hk.handle_passes hs hd hchoice []).of_enqueue, hempty, ?_⟩
  rw [hhandle, henacted.failure]
  rfl

/-- **Of an event that cannot be handled nothing remains** but notes in the journal, which are about
no call of host code and no transition. -/
theorem Chronicled.send_ignored (hselect : i.tree.select i.configuration event.name = none)
    (fuel : Nat) :
    (i.send (fuel + 1) event).2 = .done ∧
    (i.send (fuel + 1) event).1 = { i with journal := (i.send (fuel + 1) event).1.journal } ∧
    (i.send (fuel + 1) event).1.taken = i.taken ∧
    (i.send (fuel + 1) event).1.hostCalls = i.hostCalls := by
  have hk : (i.enqueue (.plain event)).Chronicled context := h.round (.enqueue hd _)
  have hchoice : (i.enqueue (.plain event)).choice? (.plain event) = none :=
    (choice?_plain _ event).trans (congrArg (Option.map fun tr => (tr, event)) hselect)
  have hplain : Envelope.plain event ≠ .stop := nofun
  obtain ⟨n, hn, hhandle⟩ := hk.coherent.handle_of_none hplain hchoice []
  have hignored := hk.coherent.ignores_of_none hplain hchoice []
  have hrests := hk.handle_rests hs hd hplain hchoice []
  rw [send_eq_handle hs hqueue fuel hignored.queue]
  refine ⟨by rw [hignored.fault]; rfl, ?_, ?_, ?_⟩
  · rw [hhandle, ← hqueue]
    rfl
  · exact (hrests.log _ Entry.tells_taken).trans ((i.rests_enqueue _).log _ Entry.tells_taken)
  · exact hignored.hostCalls.trans (hostCalls_note i rfl)

end Chronicles

/-! ### The forecast -/

/-- **What can be handled is what will be.** Before the start and after the stop nothing can be.
Take a running machine whose host code sends nothing, and no message that waits. An event can be
handled exactly if sending it has one transition taken; then one record is handed to the history,
everyone who watches is notified once, and the event is the last one, whether or not an action
fails. If it cannot be handled the call returns, nothing has changed but the journal, and no host
code was called. -/
theorem Reachable.can_foretells {d : Definition} {host : Implementations C} {m : Machine C}
    (hm : Machine.build d host = .ok m) (hi : Reachable m i) :
    (i.status ≠ .running → ∀ name, i.can name = false) ∧
    (m.Silent → (∀ o ∈ i.observers, o.2.Silent) → i.dropped = false → i.status = .running →
      i.queue = [] → ∀ (event : Event) (fuel : Nat),
      let call := .send (fuel + 1) event
      let j := i.perform call
      (i.can event.name = true ↔ ∃ source, j.taken = i.taken ++ [(event.name, source)]) ∧
      (i.can event.name = true → ∃ tr,
        m.tree.select i.configuration event.name = some tr ∧
        Passes i (.crossing i.configuration tr event) j ∧
        j.history = i.history.record ⟨event.name, i.configuration.idsBelowRoot m.tree,
          j.configuration.idsBelowRoot m.tree, i.now⟩ ∧
        j.sightings = i.sightings ++ i.observers.map (fun o => (o.1, j.snapshot)) ∧
        j.lastEvent = some event ∧ j.status = .running ∧ j.queue = [] ∧
        i.outcome call = ((m.failure? event i.context
          (m.tree.plan i.configuration tr).actions).map fun f =>
            Fault.actionFailed (m.tree.actionName f.1) event.name f.2).elim .done .failed) ∧
      (i.can event.name = false →
        i.outcome call = .done ∧ j = { i with journal := j.journal } ∧ j.taken = i.taken ∧
        j.hostCalls = i.hostCalls)) := by
  refine ⟨can_eq_false, fun hsilent hobservers hd hs hqueue event fuel => ?_⟩
  obtain ⟨context, h⟩ := hi.chronicled hm
  obtain rfl := hi.machine
  have hall : i.Silent := ⟨hsilent, hi.silent_invocations hm hsilent, hobservers⟩
  intro call j
  have hj : j = (i.send (fuel + 1) event).1 := perform_of_kept hd call
  have hcan := can_of_running hs event.name
  -- The query and the call ask the core the same question.
  cases hselect : i.tree.select i.configuration event.name with
  | some tr =>
    rw [hselect, Option.isSome_some] at hcan
    obtain ⟨hpasses, hempty, houtcome⟩ := h.send_passes hs hd hqueue hall hselect fuel
    rw [← hj] at hpasses hempty
    refine ⟨iff_of_true hcan ⟨_, hpasses.taken⟩, fun _ => ?_, fun hcannot => ?_⟩
    · refine ⟨tr, hselect, hpasses, ?_, hpasses.sightings, hpasses.lastEvent, hpasses.status,
        hempty, houtcome⟩
      rw [hpasses.history, hpasses.after]
      rfl
    · cases hcan.symm.trans hcannot
  | none =>
    rw [hselect, Option.isSome_none] at hcan
    have hignored := h.send_ignored hs hd hqueue hselect fuel
    rw [← hj] at hignored
    refine ⟨iff_of_false (by simp [hcan]) ?_, fun hcan' => ?_, fun _ => hignored⟩
    · rintro ⟨source, htaken⟩
      rw [hignored.2.2.1] at htaken
      simp at htaken
    · cases hcan.symm.trans hcan'

end Interpreter

/-! ### A fuse that is asked first -/

/-- A surge can be handled, and it is, though melting fails. A drizzle cannot, and nothing comes of
it. -/
theorem fuse_foretold :
    let watcher : Observer Nat := fun _ _ => []
    let i := ((Interpreter.new fuseMachine 0).withHistoryLimit 10).after
      [.subscribe watcher, .start 1]
    i.can "surge" = true ∧
    (∃ source, (i.perform (.send 1 surge)).taken = i.taken ++ [("surge", source)]) ∧
    i.outcome (.send 1 surge) = .failed (.actionFailed "melt" "surge" ⟨"molten"⟩) ∧
    i.can "drizzle" = false ∧
    (i.perform (.send 1 (.named "drizzle"))).hostCalls = i.hostCalls := by
  intro watcher i
  have hthere : i.dropped = false := by decide +kernel
  have hrunning : i.status = .running := by decide +kernel
  have hqueue : i.queue = [] := List.isEmpty_iff.mp (by decide +kernel)
  have hsurge : i.can "surge" = true := by decide +kernel
  have hdrizzle : i.can "drizzle" = false := by decide +kernel
  have hobservers : ∀ o ∈ i.observers, o.2.Silent := by
    let before := ((Interpreter.new fuseMachine 0).withHistoryLimit 10).perform (.subscribe watcher)
    have hstart : i.observers = before.observers :=
      Interpreter.observers_of_audience (Interpreter.audience_perform before (c := .start 1) rfl)
    intro o ho
    rw [hstart] at ho
    rw [List.mem_singleton.mp ho]
    exact fun _ _ => rfl
  have hi : Interpreter.Reachable fuseMachine i :=
    Interpreter.reachable_after (.fresh 0 10) [.subscribe watcher, .start 1]
  obtain ⟨-, hforetold⟩ := Interpreter.Reachable.can_foretells build_fuse hi
  have hsent := hforetold (Machine.silent_of_build build_fuse silent_fuseHost) hobservers hthere
    hrunning hqueue
  have hignored := (hsent (.named "drizzle") 0).2.2 hdrizzle
  exact ⟨hsurge, (hsent surge 0).1.mp hsurge, by decide +kernel, hdrizzle, hignored.2.2.2⟩

end Statechart
