import Statechart.Proofs.Interpreter.Faces

/-!
# Deliveries

Events may be sent one by one to a machine that runs, posted all together and processed later, or
sent before the start. If host code sends nothing and no delay elapses meanwhile, it all comes to
the same (`deliveries_agree`), though calls fail at different points: a call that fails has dealt
with the event it failed on and leaves the others in the queue, so that whoever goes on deals with
each event once and in order (`Stands`).
-/

namespace Statechart

/-- An event from outside as a message. -/
def Envelope.plain (event : Event) : Envelope := .event event none

/-- The call is about who watches or about the clock. -/
def Call.Prepares {C : Type} (c : Call C) : Prop :=
  c.Attends ∨ ∃ present, c = .provideClock present

namespace Interpreter

variable {C : Type} {i j k b : Interpreter C} {done rest : List Event} {e : Event}

/-! ### Ways of delivering events -/

/-- From `i` to `j` the stimuli follow one another as calls that return, and time goes by. Nothing
is done about calls that fail. -/
inductive Course : Interpreter C → List Stimulus → Interpreter C → Prop
  | nil {i : Interpreter C} (now : Instant) : Course i [] { i with now }
  | cons {i j : Interpreter C} {x : Stimulus} {xs : List Stimulus} (now : Instant) (fuel : Nat)
      (hreturns : { i with now }.outcome (x.call fuel) ≠ .unfinished)
      (h : Course ({ i with now }.perform (x.call fuel)) xs j) : Course i (x :: xs) j

theorem Course.ended (i : Interpreter C) : Course i [] i := .nil i.now

/-- A call at once. -/
theorem Course.call {x : Stimulus} {xs : List Stimulus} (fuel : Nat)
    (hreturns : i.outcome (x.call fuel) ≠ .unfinished)
    (h : Course (i.perform (x.call fuel)) xs j) : Course i (x :: xs) j :=
  .cons i.now fuel hreturns h

/-- **What holds of the events so far holds of all of them in the end**, if each call keeps it and
time does. -/
theorem Course.keeps {P : List Event → Interpreter C → Prop} {f : Event → Stimulus}
    (htick : ∀ {seen i}, P seen i → ∀ now, P seen { i with now })
    (hcall : ∀ seen e i fuel, P seen i → i.outcome ((f e).call fuel) ≠ .unfinished →
      P (seen ++ [e]) (i.perform ((f e).call fuel)))
    {seen events : List Event} (h : Course i (events.map f) j) (hi : P seen i) :
    P (seen ++ events) j := by
  induction events generalizing seen i with
  | nil =>
    cases h with
    | nil now =>
      rw [List.append_nil]
      exact htick hi now
  | cons e events ih =>
    rw [List.map_cons] at h
    cases h with
    | cons now fuel hreturns hlater =>
      have hj := ih hlater (hcall seen e _ fuel (htick hi now) hreturns)
      rwa [List.append_assoc] at hj

/-- From `i` to `j` the queue is processed again and again until no action fails, and time goes
by. -/
inductive Insists : Interpreter C → Interpreter C → Prop
  | done {i j : Interpreter C} (now : Instant) {fuel : Nat}
      (h : { i with now }.drain fuel = (j, .done)) : Insists i j
  | again {i j k : Interpreter C} (now : Instant) {fuel : Nat} {fault : Fault}
      (h : { i with now }.drain fuel = (k, .failed fault)) (hk : Insists k j) : Insists i j

/-- When events are sent, and by whom. -/
inductive Way where
  /-- the host sends them one by one after the start -/
  | oneByOne
  /-- they are posted through a handle after the start, and processed when all are there -/
  | posted
  /-- the host sends them before the start -/
  | deferred
  deriving DecidableEq

/-- The machine is started and the events are delivered to it, which leads from `i` to `j`. -/
def Delivered (i : Interpreter C) (events : List Event) : Way → Interpreter C → Prop
  | .oneByOne, j => Course i (.start :: events.map .send) j
  | .posted, j => ∃ k, Course i (.start :: events.map .post) k ∧ Insists k j
  | .deferred, j => ∃ k l, Course i (events.map .send) k ∧ Course k [.start] l ∧ Insists l j

/-- It has come to the same, and the same has happened in between, but for messages that were
sent. -/
structure Agree (i j : Interpreter C) : Prop where
  status : i.status = j.status
  configuration : i.configuration = j.configuration
  context : i.context = j.context
  lastEvent : i.lastEvent = j.lastEvent
  runningInvocations : i.runningInvocations = j.runningInvocations
  armedTimers : i.armedTimers = j.armedTimers
  history : (i.history.records.map fun r => (r.event, r.source, r.destination)) =
    j.history.records.map fun r => (r.event, r.source, r.destination)
  journal : (i.journal.toList.filter fun e => !e.isTraffic) =
    j.journal.toList.filter fun e => !e.isTraffic

theorem Kin.agrees (h : Kin i j) : Agree i j where
  status := h.status
  configuration := h.configuration
  context := h.context
  lastEvent := h.read _ fun _ => rfl
  runningInvocations := h.read _ fun _ => rfl
  armedTimers := h.read _ fun _ => rfl
  history := History.records_of_untimed h.history
  journal := h.journal

/-! ### Dealing with events -/

/-- The events are dealt with one after another, as if each of them were alone. -/
def digest (i : Interpreter C) (events : List Event) : Interpreter C :=
  events.foldl (fun k e => (k.handle (.plain e) []).1) i

theorem digest_append (i : Interpreter C) (events : List Event) (e : Event) :
    i.digest (events ++ [e]) = ((i.digest events).handle (.plain e) []).1 := by
  rw [digest, List.foldl_append]
  rfl

/-- To send an event that is not refused is to put it into the queue and to process the queue. -/
theorem send_of_not_stopped (hs : i.status ≠ .stopped) (fuel : Nat) (e : Event) :
    i.send fuel e = (i.enqueue (.plain e)).drain fuel := by
  cases hi : i.status with
  | stopped => exact absurd hi hs
  | _ => simp only [send, hi, Envelope.plain]

/-- Events in the queue are only taken out when it is their turn. -/
theorem Silent.handle_plain (hi : i.Silent) (e : Event) (rest : List Envelope) :
    (i.handle (.plain e) rest).1.Silent ∧ (i.handle (.plain e) rest).1.queue = rest ∧
    (i.handle (.plain e) rest).1.status = i.status := by
  have hpulled : (i.pull (.plain e) rest).Silent := ⟨hi.machine, hi.invocations, hi.observers⟩
  simp only [Envelope.plain, handle, process, processEvent, Option.filter_none]
  split
  · exact ⟨(hpulled.take _ _).silent, (hpulled.take _ _).queue, (take_frame _ _ _).2.2⟩
  · exact ⟨⟨hi.machine, hi.invocations, hi.observers⟩, rfl, rfl⟩

/-- From `b` to `j` the events in `done` were dealt with, and those in `rest` wait. -/
structure Stands (b : Interpreter C) (done rest : List Event) (j : Interpreter C) : Prop where
  kin : Kin j (b.digest done)
  queue : j.queue = rest.map .plain
  status : j.status = b.status
  dropped : j.dropped = false

namespace Stands

theorem tick (h : Stands b done rest j) (now : Instant) : Stands b done rest { j with now } where
  kin := ⟨h.kin.face, h.kin.silent.machine, h.kin.silent.invocations, h.kin.silent.observers⟩
  queue := h.queue
  status := h.status
  dropped := h.dropped

theorem enqueue (h : Stands b done rest j) (e : Event) :
    Stands b done (rest ++ [e]) (j.enqueue (.plain e)) where
  kin := by
    refine ⟨?_, h.kin.silent.machine, h.kin.silent.invocations, h.kin.silent.observers⟩
    exact (face_note_traffic j (rfl : Entry.isTraffic (.enqueued (.plain e)) = true)).trans
      h.kin.face
  queue := by
    rw [List.map_append, ← h.queue]
    rfl
  status := h.status
  dropped := h.dropped

/-- **To process the next message is to deal with the next event.** -/
theorem handle (h : Stands b done (e :: rest) j) (hs : b.status = .running) :
    Stands b (done ++ [e]) rest (j.handle (.plain e) (rest.map .plain)).1 where
  kin := by
    rw [digest_append]
    exact h.kin.handle e _ []
  queue := (h.kin.silent.handle_plain e _).2.1
  status := (h.kin.silent.handle_plain e _).2.2.trans h.status
  dropped := handle_dropped j (h.status.trans hs) h.dropped _ _

theorem handles (h : Stands b done rest j) (hs : b.status = .running) (hjk : Handles j k) :
    ∃ more left, rest = more ++ left ∧ Stands b (done ++ more) left k := by
  induction hjk generalizing done rest with
  | refl j => exact ⟨[], rest, rfl, by rwa [List.append_nil]⟩
  | @cons j k e others hrunning hqueue _ ih =>
    rw [h.queue] at hqueue
    obtain ⟨e, rest, rfl, rfl, rfl⟩ := List.map_eq_cons_iff.mp hqueue
    obtain ⟨more, left, rfl, hk⟩ := ih (h.handle hs)
    exact ⟨e :: more, left, rfl, by rwa [List.append_assoc] at hk⟩

/-- A call that returns has dealt with one event at least, if any waits. -/
theorem drain_last (h : Stands b done [e] j) (hs : b.status = .running) {fuel : Nat}
    (hreturns : (j.drain fuel).2 ≠ .unfinished) :
    Stands b (done ++ [e]) [] (j.drain fuel).1 := by
  have hrunning : j.status = .running := h.status.trans hs
  have hhandled := h.handle hs
  have hidle := drain_idle (i := (j.handle (.plain e) []).1) (.inr hhandled.queue)
  cases fuel with
  | zero => simp [drain, hrunning, h.queue] at hreturns
  | succ fuel =>
    rw [drain_succ hrunning h.queue]
    split
    · exact hhandled
    · rw [List.map_nil, hidle fuel]
      exact hhandled

/-- Nothing is dealt with before the start. -/
theorem drain_waiting (h : Stands b done rest j) (hs : b.status = .notStarted) (fuel : Nat) :
    Stands b done rest (j.drain fuel).1 := by
  have hstatus : j.status ≠ .running := by simp [h.status, hs]
  rw [drain_idle (.inl hstatus)]
  exact h

theorem insists (h : Stands b done rest j) (hs : b.status = .running) (hjk : Insists j k) :
    Stands b (done ++ rest) [] k := by
  induction hjk generalizing done rest with
  | @done j k now fuel hdrain =>
    have hhandles := drain_handles fuel { j with now }
    have hend : ({ j with now }.drain fuel).2 = .done := congrArg Prod.snd hdrain
    have hdone := drain_done hend
    rw [hdrain] at hhandles hdone
    obtain ⟨more, left, rfl, hk⟩ := (h.tick now).handles hs hhandles
    have hleft : left = [] := by
      have hempty := hdone (hk.status.trans hs)
      rwa [hk.queue, List.map_eq_nil_iff] at hempty
    rw [hleft, List.append_nil]
    rwa [hleft] at hk
  | @again j k l now fuel fault hdrain _ ih =>
    have hhandles := drain_handles fuel { j with now }
    rw [hdrain] at hhandles
    obtain ⟨more, left, rfl, hl⟩ := (h.tick now).handles hs hhandles
    have hk := ih hl
    rwa [List.append_assoc] at hk

theorem insists_waiting (h : Stands b done rest j) (hs : b.status = .notStarted)
    (hjk : Insists j k) : Stands b done rest k := by
  induction hjk with
  | @done j k now fuel hdrain =>
    have hwaiting := (h.tick now).drain_waiting hs fuel
    rwa [hdrain] at hwaiting
  | @again j k l now fuel fault hdrain _ ih =>
    have hwaiting := (h.tick now).drain_waiting hs fuel
    rw [hdrain] at hwaiting
    exact ih hwaiting

/-! ### Calls -/

theorem start (h : Stands b [] rest j) (hs : b.status = .notStarted) (hclock : b.Clocked)
    (fuel : Nat) :
    ∃ more left, rest = more ++ left ∧ Stands b.launch.1 more left (j.perform (.start fuel)) := by
  have hkin : Kin j b := h.kin
  have hnew : j.status = .notStarted := h.status.trans hs
  have hclock' : j.Clocked := by
    rw [Clocked, hkin.tree, hkin.read Interpreter.hasClock fun _ => rfl]
    exact hclock
  have hhandles := carryOut_handles j (.start fuel)
  rw [enact_start j fuel hnew hclock', ← perform_of_kept h.dropped] at hhandles
  have hlaunched : Stands b.launch.1 [] rest j.launch.1 := by
    constructor
    case kin => exact hkin.launch
    case queue => exact hkin.silent.launch.queue.trans h.queue
    case status => rw [(launch_frame j).2.2, (launch_frame b).2.2]
    case dropped => exact (launch_moves hnew h.dropped hclock').dropped.trans h.dropped
  exact hlaunched.handles (launch_frame b).2.2 hhandles

theorem start_refused (h : Stands b [] rest j) (hs : b.status = .notStarted)
    (hclock : ¬ b.Clocked) (fuel : Nat) : Stands b [] rest (j.perform (.start fuel)) := by
  have hkin : Kin j b := h.kin
  have hclock' : ¬ j.Clocked := by
    rw [Clocked, hkin.tree, hkin.read Interpreter.hasClock fun _ => rfl]
    exact hclock
  rw [perform_of_kept h.dropped, carryOut,
    Interpreter.start_refused (h.status.trans hs) hclock']
  exact h

theorem send_eq (h : Stands b done rest j) (hs : b.status ≠ .stopped) (fuel : Nat) (e : Event) :
    j.send fuel e = (j.enqueue (.plain e)).drain fuel :=
  send_of_not_stopped (by rwa [h.status]) fuel e

/-- **Events that are sent to a running machine are dealt with one by one.** -/
theorem sends (h : Stands b done [] j) (hs : b.status = .running) {events : List Event}
    (hjk : Course j (events.map .send) k) : Stands b (done ++ events) [] k := by
  refine hjk.keeps (P := fun seen j => Stands b (done ++ seen) [] j) (fun h now => h.tick now) ?_
    (by rwa [List.append_nil])
  intro seen e j fuel h hreturns
  have hsend := h.send_eq (by simp [hs]) fuel e
  rw [Stimulus.call, outcome, hsend] at hreturns
  rw [perform_of_kept h.dropped, Stimulus.call, carryOut, hsend, ← List.append_assoc]
  exact (h.enqueue e).drain_last hs hreturns

/-- Events that are sent before the start wait. -/
theorem sends_waiting (h : Stands b done rest j) (hs : b.status = .notStarted)
    {events : List Event} (hjk : Course j (events.map .send) k) :
    Stands b done (rest ++ events) k := by
  refine hjk.keeps (P := fun seen j => Stands b done (rest ++ seen) j) (fun h now => h.tick now) ?_
    (by rwa [List.append_nil])
  intro seen e j fuel h _
  rw [perform_of_kept h.dropped, Stimulus.call, carryOut, h.send_eq (by simp [hs]),
    ← List.append_assoc]
  exact (h.enqueue e).drain_waiting hs fuel

/-- Events that are posted wait. -/
theorem posts (h : Stands b done rest j) {events : List Event}
    (hjk : Course j (events.map .post) k) : Stands b done (rest ++ events) k := by
  refine hjk.keeps (P := fun seen j => Stands b done (rest ++ seen) j) (fun h now => h.tick now) ?_
    (by rwa [List.append_nil])
  intro seen e j fuel h _
  rw [perform_of_kept h.dropped, Stimulus.call, carryOut, post_of_kept h.dropped,
    ← List.append_assoc]
  exact h.enqueue e

/-- **Each event is dealt with once and in order**, in whatever way the events are delivered. -/
theorem delivered (h : Stands i [] [] i) (hs : i.status = .notStarted) (hclock : i.Clocked)
    {events : List Event} {way : Way} (hdelivered : Delivered i events way j) :
    Kin j (i.launch.1.digest events) := by
  have hrunning := (launch_frame i).2.2
  have hstart {k : Interpreter C} (hk : Stands i [] [] k) (fuel : Nat) :
      Stands i.launch.1 [] [] (k.perform (.start fuel)) := by
    obtain ⟨more, left, hnone, hstarted⟩ := hk.start hs hclock fuel
    obtain ⟨rfl, rfl⟩ := List.append_eq_nil_iff.mp hnone.symm
    exact hstarted
  cases way with
  | oneByOne =>
    cases hdelivered with
    | cons now fuel _ hlater => exact ((hstart (h.tick now) fuel).sends hrunning hlater).kin
  | posted =>
    obtain ⟨k, hk, hkj⟩ := hdelivered
    cases hk with
    | cons now fuel _ hlater =>
      exact (((hstart (h.tick now) fuel).posts hlater).insists hrunning hkj).kin
  | deferred =>
    obtain ⟨k, l, hk, hkl, hlj⟩ := hdelivered
    cases hkl with
    | cons now fuel _ hlater =>
      cases hlater with
      | nil later =>
        obtain ⟨more, left, rfl, hstarted⟩ :=
          ((h.sends_waiting hs hk).tick now).start hs hclock fuel
        exact ((hstarted.tick later).insists hrunning hlj).kin

/-- Without the clock that it needs the machine is not started, and the events wait for good. -/
theorem delivered_refused (h : Stands i [] [] i) (hs : i.status = .notStarted)
    (hclock : ¬ i.Clocked) {events : List Event} {way : Way}
    (hdelivered : Delivered i events way j) : Kin j i := by
  cases way with
  | oneByOne =>
    cases hdelivered with
    | cons now fuel _ hlater =>
      exact (((h.tick now).start_refused hs hclock fuel).sends_waiting hs hlater).kin
  | posted =>
    obtain ⟨k, hk, hkj⟩ := hdelivered
    cases hk with
    | cons now fuel _ hlater =>
      have hrefused := (h.tick now).start_refused hs hclock fuel
      exact ((hrefused.posts hlater).insists_waiting hs hkj).kin
  | deferred =>
    obtain ⟨k, l, hk, hkl, hlj⟩ := hdelivered
    cases hkl with
    | cons now fuel _ hlater =>
      cases hlater with
      | nil later =>
        have hrefused := ((h.sends_waiting hs hk).tick now).start_refused hs hclock fuel
        exact ((hrefused.tick later).insists_waiting hs hlj).kin

end Stands

/-! ### There is a run in each way -/

theorem Silent.perform_call (hi : i.Silent) (hd : i.dropped = false) (x : Stimulus) (fuel : Nat) :
    (i.perform (x.call fuel)).Silent ∧ (i.perform (x.call fuel)).dropped = false := by
  have hcall : x.call fuel ≠ (.drop : Call C) := by cases x <;> simp [Stimulus.call]
  have hhandles := carryOut_handles i (x.call fuel)
  rw [perform_of_kept hd]
  exact ⟨hhandles.silent (hi.twin.enact x fuel fuel).left,
    hhandles.dropped (enact_dropped hd hcall)⟩

theorem Silent.exists_course (hi : i.Silent) (hd : i.dropped = false) (xs : List Stimulus) :
    ∃ j, Course i xs j ∧ j.Silent ∧ j.dropped = false := by
  induction xs generalizing i with
  | nil => exact ⟨i, .ended i, hi, hd⟩
  | cons x rest ih =>
    obtain ⟨fuel, hreturns⟩ := hi.exists_returns x
    obtain ⟨hsilent, hthere⟩ := hi.perform_call hd x fuel
    obtain ⟨j, hj, hsilent', hthere'⟩ := ih hsilent hthere
    exact ⟨j, .call fuel hreturns hj, hsilent', hthere'⟩

theorem Settles.insists (h : Settles i j) : Insists i j := by
  induction h with
  | @done i j fuel h => exact .done i.now h
  | @again i j k fuel fault h _ ih => exact .again i.now h ih

theorem Silent.exists_delivered (hi : i.Silent) (hd : i.dropped = false) (events : List Event)
    (way : Way) : ∃ j, Delivered i events way j := by
  cases way with
  | oneByOne =>
    obtain ⟨j, hj, -⟩ := hi.exists_course hd (.start :: events.map .send)
    exact ⟨j, hj⟩
  | posted =>
    obtain ⟨k, hk, hsilent, -⟩ := hi.exists_course hd (.start :: events.map .post)
    obtain ⟨j, hj⟩ := hsilent.exists_settles
    exact ⟨j, k, hk, hj.insists⟩
  | deferred =>
    obtain ⟨k, hk, hsilent, hthere⟩ := hi.exists_course hd (events.map .send)
    obtain ⟨l, hl, hsilent', -⟩ := hsilent.exists_course hthere [.start]
    obtain ⟨j, hj⟩ := hsilent'.exists_settles
    exact ⟨j, k, l, hk, hl, hj.insists⟩

theorem after_prepares (hi : i.Silent) (hd : i.dropped = false) (hs : i.status = .notStarted)
    (hqueue : i.queue = []) {setup : List (Call C)} (hsetup : ∀ c ∈ setup, c.Prepares) :
    Stands (i.after setup) [] [] (i.after setup) ∧ (i.after setup).status = .notStarted := by
  induction setup generalizing i with
  | nil => exact ⟨⟨.refl hi, hqueue, rfl, hd⟩, hs⟩
  | cons c rest ih =>
    obtain ⟨hc, hrest⟩ := List.forall_mem_cons.mp hsetup
    rcases hc with hc | ⟨present, rfl⟩
    · have hcontrol := control_attends i hc
      exact ih (hi.attends hc) ((congrArg Interpreter.dropped hcontrol).trans hd)
        ((congrArg Interpreter.status hcontrol).trans hs)
        ((congrArg Interpreter.queue hcontrol).trans hqueue) hrest
    · have hperform : i.perform (.provideClock present) = { i with hasClock := present } := by
        simp [perform, hd, carryOut, hs]
      have hrest := @ih { i with hasClock := present } ⟨hi.machine, hi.invocations, hi.observers⟩
        hd hs hqueue hrest
      rwa [← hperform] at hrest

/-- **In whatever way events are delivered it comes to the same.** Take a machine whose actions and
services send nothing, observers that send nothing, and any events; no delay elapses. The events may
be sent one by one after the start, or posted after the start and processed until no action fails,
or sent before the start and processed in the same way. Each way comes to an end, and at any such
end the states, the context, what runs, what is armed and what is remembered are the same, and so is
all that happened: the actions that were run, the services that were started and stopped, and what
the observers were shown. -/
theorem deliveries_agree {m : Machine C} (hm : m.Silent) (context : C) (limit : Nat)
    {setup : List (Call C)} (hsetup : ∀ c ∈ setup, c.Prepares) (events : List Event) :
    let i := ((Interpreter.new m context).withHistoryLimit limit).after setup
    (∀ way, ∃ j, Delivered i events way j) ∧
    ∀ way way' j j', Delivered i events way j → Delivered i events way' j' → Agree j j' := by
  intro i
  obtain ⟨hstands, hs⟩ := after_prepares (silent_fresh hm context limit) rfl rfl rfl hsetup
  refine ⟨hstands.kin.silent.exists_delivered hstands.dropped events, ?_⟩
  intro way way' j j' hj hj'
  by_cases hclock : i.Clocked
  · exact ((hstands.delivered hs hclock hj).trans
      (hstands.delivered hs hclock hj').symm).agrees
  · exact ((hstands.delivered_refused hs hclock hj).trans
      (hstands.delivered_refused hs hclock hj').symm).agrees

end Interpreter

/-! ### Two surges -/

/-- A fuse that has not been started. -/
def fuseNew : Interpreter Nat := (Interpreter.new fuseMachine 0).withHistoryLimit 10

def surge : Event := .named "surge"

/-- The fuse after two surges that came one by one. -/
def fuseSurgedTwice : Interpreter Nat :=
  fuseNew.after [.start 1, .send 2 surge, .send 2 surge]

/-- Two surges that come before the start come to the same as two that come one by one. The first
one blows the fuse, and the call that deals with it fails. -/
theorem fuse_deliveries_agree :
    let waiting := fuseNew.after [.send 2 surge, .send 2 surge]
    waiting.outcome (.start 3) = .failed (.actionFailed "melt" "surge" ⟨"molten"⟩) ∧
    Interpreter.Agree fuseSurgedTwice (waiting.after [.start 3, .drain 3]) := by
  intro waiting
  have honeByOne : Interpreter.Delivered fuseNew [surge, surge] .oneByOne fuseSurgedTwice :=
    .call 1 (by decide +kernel) (.call 2 (by decide +kernel)
      (.call 2 (by decide +kernel) (.ended _)))
  have hdeferred : Interpreter.Delivered fuseNew [surge, surge] .deferred
      (waiting.after [.start 3, .drain 3]) := by
    have hthere : (waiting.after [.start 3]).dropped = false := by decide +kernel
    have hdrain : (waiting.after [.start 3]).drain 3 =
        (waiting.after [.start 3, .drain 3], .done) :=
      Prod.ext (Interpreter.perform_of_kept hthere (.drain 3)).symm (by decide +kernel)
    refine ⟨waiting, waiting.after [.start 3], ?_, ?_, (Interpreter.Settles.done hdrain).insists⟩
    · exact .call 2 (by decide +kernel) (.call 2 (by decide +kernel) (.ended _))
    · exact .call 3 (by decide +kernel) (.ended _)
  have hagree := (@Interpreter.deliveries_agree Nat fuseMachine
    (Machine.silent_of_build build_fuse silent_fuseHost) 0 10 [] nofun [surge, surge]).2 _ _ _ _
    honeByOne hdeferred
  exact ⟨by decide +kernel, hagree⟩

end Statechart
