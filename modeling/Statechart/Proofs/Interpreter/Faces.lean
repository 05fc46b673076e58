import Statechart.Proofs.Interpreter.Outcomes

/-!
# Faces

What waits in the queue, what was sent, and what the clock shows make no difference to what an event
comes to, if host code sends nothing. So whoever is shown two interpreters that differ in nothing
else cannot tell them apart, neither before the event nor after it (`Kin.handle`). Unlike the
control the face has the context in it and all that host code was called for, so `Kin` compares runs
on the same machine.
-/

namespace Statechart

namespace Interpreter

variable {C : Type} {i j k : Interpreter C}

/-- All of an interpreter but what waits in the queue, what was sent, and the clock. -/
def face (i : Interpreter C) : Interpreter C :=
  { i with
    queue := []
    now := .epoch
    history := i.history.untimed
    journal := i.journal.filter fun e => !e.isTraffic }

/-- **Both show the same face**, and their host code sends nothing. -/
structure Kin (i j : Interpreter C) : Prop where
  face : i.face = j.face
  silent : i.Silent

/-- Put an entry into the journal, unless it is on a message that was sent. -/
def jot (i : Interpreter C) (e : Entry C) : Interpreter C :=
  { i with journal := (i.journal.push e).filter fun e => !e.isTraffic }

theorem face_note (i : Interpreter C) (e : Entry C) : (i.note e).face = i.face.jot e := by
  have hjournal : (i.journal.push e).filter (fun e => !e.isTraffic) =
      ((i.journal.filter fun e => !e.isTraffic).push e).filter fun e => !e.isTraffic := by
    rw [← Array.toList_inj]
    simp
  rw [face, note, hjournal]
  rfl

/-- What is sent does not show. -/
theorem face_note_traffic (i : Interpreter C) {e : Entry C} (he : e.isTraffic = true) :
    (i.note e).face = i.face := by
  have hjournal : (i.journal.push e).filter (fun e => !e.isTraffic) =
      i.journal.filter fun e => !e.isTraffic := by
    rw [← Array.toList_inj]
    simp [he]
  rw [face, note, hjournal]
  rfl

namespace Kin

variable (h : Kin i j)

include h

/-- What can be read off the face is the same for both. -/
theorem read {α : Type} (f : Interpreter C → α) (hf : ∀ k, f k.face = f k) : f i = f j := by
  rw [← hf i, h.face, hf j]

theorem machine : i.machine = j.machine := h.read _ fun _ => rfl

theorem tree : i.tree = j.tree := h.read _ fun _ => rfl

theorem context : i.context = j.context := h.read _ fun _ => rfl

theorem configuration : i.configuration = j.configuration := h.read _ fun _ => rfl

theorem status : i.status = j.status := h.read _ fun _ => rfl

theorem invocations : i.invocations = j.invocations := h.read _ fun _ => rfl

theorem emitters : i.emitters = j.emitters := h.read _ fun _ => rfl

theorem timers : i.timers = j.timers := h.read _ fun _ => rfl

theorem observers : i.observers = j.observers := h.read _ fun _ => rfl

theorem history : i.history.untimed = j.history.untimed :=
  congrArg Interpreter.history h.face

theorem journal : (i.journal.toList.filter fun e => !e.isTraffic) =
    j.journal.toList.filter fun e => !e.isTraffic := by
  have hjournal := congrArg (fun i => i.journal.toList) h.face
  simpa [Interpreter.face] using hjournal

theorem symm : Kin j i where
  face := h.face.symm
  silent := ⟨h.machine ▸ h.silent.machine, h.invocations ▸ h.silent.invocations,
    h.observers ▸ h.silent.observers⟩

omit h

theorem refl (hi : i.Silent) : Kin i i := ⟨rfl, hi⟩

theorem trans (hij : Kin i j) (hjk : Kin j k) : Kin i k := ⟨hij.face.trans hjk.face, hij.silent⟩

/-- What each step of a fold keeps the whole fold keeps. -/
theorem foldl {α : Type} {f : Interpreter C → α → Interpreter C} {l : List α} (h : Kin i j)
    (hstep : ∀ i j, Kin i j → ∀ a ∈ l, Kin (f i a) (f j a)) : Kin (l.foldl f i) (l.foldl f j) := by
  induction l generalizing i j with
  | nil => exact h
  | cons a rest ih =>
    refine ih (hstep i j h a List.mem_cons_self) ?_
    exact fun i j h b hb => hstep i j h b (List.mem_cons_of_mem a hb)

/-- **What alters the face keeps them kin** if it looks at nothing but the face. -/
theorem alter (h : Kin i j) {f : Interpreter C → Interpreter C} (hsilent : (f i).Silent)
    (g : Interpreter C → Interpreter C) (hf : ∀ k, (f k).face = g k.face) : Kin (f i) (f j) :=
  ⟨by rw [hf, hf, h.face], hsilent⟩

theorem note (h : Kin i j) (e : Entry C) : Kin (i.note e) (j.note e) :=
  have hsilent : (i.note e).Silent :=
    ⟨h.silent.machine, h.silent.invocations, h.silent.observers⟩
  h.alter (f := fun k => k.note e) hsilent (fun k => k.jot e) fun k => face_note k e

end Kin

/-! ### Leaving and entering -/

theorem Kin.tearDown (h : Kin i j) {v : Invocation} (hv : v.handle.Silent) :
    Kin (i.tearDown v) (j.tearDown v) := by
  rw [tearDown_eq, tearDown_eq, partingSignals_of_silent hv]
  exact h.foldl fun _ _ h e _ => h.note e

theorem Kin.stopInvocation (h : Kin i j) {v : Invocation} (hv : v.handle.Silent) :
    Kin (i.stopInvocation v) (j.stopInvocation v) := by
  let remove (k : Interpreter C) : Interpreter C :=
    { k with invocations := k.invocations.filter fun w => w.origin != v.origin }
  have hremoved : (remove i).Silent :=
    h.silent.of_frame rfl (fun _ hw => List.mem_of_mem_filter hw) rfl
  have hnoted : Kin ((remove i).note (.invocationStopped v.origin v.id))
      ((remove j).note (.invocationStopped v.origin v.id)) :=
    (h.alter hremoved remove fun _ => rfl).note _
  have hsilenced := hnoted.alter (f := fun k => k.silence v.origin)
    ⟨hnoted.silent.machine, hnoted.silent.invocations, hnoted.silent.observers⟩
    (fun k => k.silence v.origin) fun _ => rfl
  exact hsilenced.tearDown hv

theorem Kin.cancelTimer (h : Kin i j) (t : Timer) : Kin (i.cancelTimer t) (j.cancelTimer t) := by
  have hnoted := h.note (.timerCancelled t.id t.state)
  let remove (k : Interpreter C) : Interpreter C :=
    { k with timers := k.timers.filter fun u => u.id != t.id }
  have hsilent : (remove (i.note (.timerCancelled t.id t.state))).Silent :=
    ⟨hnoted.silent.machine, hnoted.silent.invocations, hnoted.silent.observers⟩
  exact hnoted.alter hsilent remove fun _ => rfl

theorem Kin.leave (h : Kin i j) (s : StateId) : Kin (i.leave s) (j.leave s) := by
  have hsilent : ∀ v ∈ (i.invocations.filter fun v => v.state == s).reverse, v.handle.Silent :=
    fun v hv => h.silent.invocations v (List.mem_of_mem_filter (List.mem_reverse.mp hv))
  have hstopped : Kin (i.stopInvocations s) (j.stopInvocations s) := by
    rw [stopInvocations, stopInvocations, ← h.invocations]
    exact h.foldl fun _ _ h v hv => h.stopInvocation (hsilent v hv)
  rw [Interpreter.leave, Interpreter.leave, cancelTimers, cancelTimers, hstopped.timers]
  exact hstopped.foldl fun _ _ h t _ => h.cancelTimer t

theorem Kin.startInvocation (h : Kin i j) (s : StateId) (v : Invoke) :
    Kin (startInvocation s i v) (startInvocation s j v) := by
  have hsilent := h.silent.startInvocation s v
  have hsignals : (i.startup v).signals = [] :=
    (h.silent.machine.services v.service ⟨i.emitters.size⟩).1
  have hstartup : j.startup v = i.startup v := (h.read (startup · v) fun _ => rfl).symm
  have hentries : j.begunEntries s v = i.begunEntries s v :=
    (h.read (begunEntries · s v) fun _ => rfl).symm
  have hinvocation : j.machine.invocation j.emitters.size s v =
      i.machine.invocation i.emitters.size s v :=
    (h.read (fun k => k.machine.invocation k.emitters.size s v) fun _ => rfl).symm
  let emitting (k : Interpreter C) : Interpreter C :=
    { k with emitters := k.emitters.push ⟨k.tree.serviceName v.service, true⟩ }
  have hemitting : (emitting i).Silent :=
    ⟨h.silent.machine, h.silent.invocations, h.silent.observers⟩
  have hnote : Kin (i.announce v) (j.announce v) := by
    have hnumber : (.serviceCalled (j.tree.serviceName v.service) ⟨j.emitters.size⟩ : Entry C) =
        .serviceCalled (i.tree.serviceName v.service) ⟨i.emitters.size⟩ := by
      rw [h.tree, h.emitters]
    rw [announce, announce, hnumber]
    exact (h.alter (f := emitting) hemitting emitting fun _ => rfl).note _
  have hbegun : Kin ((i.begunEntries s v).foldl Interpreter.note (i.announce v))
      ((i.begunEntries s v).foldl Interpreter.note (j.announce v)) :=
    hnote.foldl fun _ _ h e _ => h.note e
  rw [startInvocation_eq, hsignals] at hsilent
  rw [startInvocation_eq, startInvocation_eq, hstartup, hsignals, hentries, hinvocation]
  let append (k : Interpreter C) : Interpreter C :=
    { k with invocations := k.invocations ++ [i.machine.invocation i.emitters.size s v] }
  exact hbegun.alter (f := append) hsilent append fun _ => rfl

theorem Kin.armTimer (h : Kin i j) (s : StateId) (delay : Delay × Nat) :
    Kin (armTimer s i delay) (armTimer s j delay) := by
  have hclock : i.hasClock = j.hasClock := h.read _ fun _ => rfl
  have hnext : i.nextTimer = j.nextTimer := h.read _ fun _ => rfl
  rw [Interpreter.armTimer, Interpreter.armTimer, hclock, ← hnext]
  split
  · have hnoted := h.note (.timerArmed ⟨i.nextTimer⟩ s delay.1.millis)
    let t : Timer := ⟨⟨i.nextTimer⟩, s, delay.2, delay.1.millis⟩
    let arm (k : Interpreter C) : Interpreter C :=
      { k with timers := k.timers ++ [t], nextTimer := i.nextTimer + 1 }
    have hsilent : (arm (i.note (.timerArmed ⟨i.nextTimer⟩ s delay.1.millis))).Silent :=
      ⟨hnoted.silent.machine, hnoted.silent.invocations, hnoted.silent.observers⟩
    exact hnoted.alter (f := arm) hsilent arm fun _ => rfl
  · exact h.note _

theorem Kin.enter (h : Kin i j) (s : StateId) : Kin (i.enter s) (j.enter s) := by
  rw [Interpreter.enter, Interpreter.enter, h.tree]
  apply Kin.foldl
  · exact h.foldl fun _ _ h v _ => h.startInvocation s v
  · exact fun _ _ h delay _ => h.armTimer s delay

/-- **A shift comes to the same for both.** -/
theorem Kin.shift (h : Kin i j) (exit entry : List StateId) (c : Configuration) (status : Status) :
    Kin (i.shift exit entry c status) (j.shift exit entry c status) := by
  have hleft : Kin (i.leaveAll exit) (j.leaveAll exit) := h.foldl fun _ _ h s _ => h.leave s
  let move (k : Interpreter C) : Interpreter C := { k with configuration := c, status }
  have hsilent : (move (i.leaveAll exit)).Silent :=
    ⟨hleft.silent.machine, hleft.silent.invocations, hleft.silent.observers⟩
  have hmoved : Kin (move (i.leaveAll exit)) (move (j.leaveAll exit)) :=
    hleft.alter hsilent move fun _ => rfl
  exact hmoved.foldl fun _ _ h s _ => h.enter s

/-! ### Actions and observers -/

theorem act_of_silent (hi : i.machine.Silent) (event : Event) (a : ActionId) :
    i.act event a = { i.note (.ran (i.tree.actionName a) event.name) with
      context := i.machine.effect event i.context a } := by
  rw [act]
  simp only [hi.actions a _ _ _]
  rfl

theorem Kin.act (h : Kin i j) (event : Event) (a : ActionId) :
    Kin (i.act event a) (j.act event a) := by
  have hnoted := h.note (.ran (i.tree.actionName a) event.name)
  let put (k : Interpreter C) : Interpreter C :=
    { k with context := i.machine.effect event i.context a }
  have hsilent : (put (i.note (.ran (i.tree.actionName a) event.name))).Silent :=
    ⟨hnoted.silent.machine, hnoted.silent.invocations, hnoted.silent.observers⟩
  rw [act_of_silent h.silent.machine, act_of_silent h.symm.silent.machine, ← h.tree, ← h.machine,
    ← h.context]
  exact hnoted.alter (f := put) hsilent put fun _ => rfl

theorem Kin.runActions (h : Kin i j) (event : Event) (actions : List ActionId) :
    Kin (i.runActions event actions).1 (j.runActions event actions).1 := by
  induction actions generalizing i j with
  | nil => exact h
  | cons a rest ih =>
    have hact := h.act event a
    have herror' : j.machine.error? event j.context a = i.machine.error? event i.context a := by
      rw [h.machine, h.context]
    cases herror : i.machine.error? event i.context a with
    | none =>
      rw [runActions_of_none herror, runActions_of_none (herror'.trans herror)]
      exact ih hact
    | some cause =>
      rw [runActions_of_some herror, runActions_of_some (herror'.trans herror), ← h.tree]
      exact hact.note _

theorem Kin.notify (h : Kin i j) : Kin i.notify j.notify := by
  have hsnapshot : i.snapshot = j.snapshot := h.read _ fun _ => rfl
  rw [Interpreter.notify, Interpreter.notify, ← hsnapshot, ← h.observers]
  refine h.foldl fun k l hkl o ho => ?_
  rw [present, present, h.silent.observers o ho, h.silent.observers o ho]
  exact hkl.note _

/-- **The host reacts in the same way to both.** -/
theorem Kin.react (h : Kin i j) (e : Entry C) (event : Event) (actions : List ActionId)
    {remember remember' : Interpreter C → History}
    (hremember : ∀ i j : Interpreter C, Kin i j → (remember i).untimed = (remember' j).untimed) :
    Kin (i.react e event actions remember).1 (j.react e event actions remember').1 := by
  have hacted := (h.note e).runActions event actions
  have hface (remember : Interpreter C → History) (k : Interpreter C) :
      ({ k with history := remember k, lastEvent := some event } : Interpreter C).face =
        { k.face with history := (remember k).untimed, lastEvent := some event } := rfl
  have hknown : Kin
      { ((i.note e).runActions event actions).1 with
        history := remember ((i.note e).runActions event actions).1
        lastEvent := some event }
      { ((j.note e).runActions event actions).1 with
        history := remember' ((j.note e).runActions event actions).1
        lastEvent := some event } := by
    refine ⟨?_, hacted.silent.machine, hacted.silent.invocations, hacted.silent.observers⟩
    rw [hface, hface, hacted.face, hremember _ _ hacted]
  exact hknown.notify

/-! ### Messages -/

/-- **A transition comes to the same for both.** -/
theorem Kin.take (h : Kin i j) (tr : Transition) (event : Event) :
    Kin (i.take tr event).1 (j.take tr event).1 := by
  have hshifted : Kin (i.shiftAlong tr) (j.shiftAlong tr) := by
    rw [shiftAlong, shiftAlong, ← h.tree, ← h.configuration, ← h.status]
    exact h.shift _ _ _ _
  have hvalue : (i.shiftAlong tr).value = (j.shiftAlong tr).value :=
    hshifted.read _ fun _ => rfl
  rw [take_eq, take_eq, ← h.tree, ← h.configuration, ← hvalue]
  apply hshifted.react
  intro i' j' h'
  rw [History.untimed_record, History.untimed_record, h'.history, h'.configuration]

theorem Kin.launch (h : Kin i j) : Kin i.launch.1 j.launch.1 := by
  have hlaunched := h.shift [] (Configuration.initial i.tree).states (.initial i.tree) .running
  have hvalue := hlaunched.read value fun _ => rfl
  rw [Interpreter.launch, Interpreter.launch, ← h.tree, ← hvalue]
  exact hlaunched.react _ _ _ fun _ _ h' => h'.history

/-- **An event comes to the same for both**, whatever waits behind it. -/
theorem Kin.handle (h : Kin i j) (event : Event) (rest rest' : List Envelope) :
    Kin (i.handle (.event event none) rest).1 (j.handle (.event event none) rest').1 := by
  have hpulled : Kin (i.pull (.event event none) rest) (j.pull (.event event none) rest') := by
    refine ⟨?_, h.silent.machine, h.silent.invocations, h.silent.observers⟩
    exact (h.note (.dequeued (.event event none))).face
  have hselect : (i.pull (.event event none) rest).tree.select
      (i.pull (.event event none) rest).configuration event.name =
    (j.pull (.event event none) rest').tree.select
      (j.pull (.event event none) rest').configuration event.name := by
    rw [hpulled.tree, hpulled.configuration]
  have hvalue := hpulled.read value fun _ => rfl
  simp only [Interpreter.handle, process, processEvent, Option.filter_none, hselect, hvalue]
  split
  · exact hpulled.take _ _
  · exact hpulled.note _

end Interpreter

end Statechart
