import Statechart.Proofs.Interpreter.Rounds
import Statechart.Proofs.Interpreter.Writing

/-!
# The queue

What is put into the queue is taken out once and in the same order, unless the machine is stopped
or dropped before (`Balanced`). A failing action ends the call in which it is run, and nothing more:
the message it belongs to is taken out for good, and those behind it wait for the next call
(`Reachable.nothing_lost`).
-/

namespace Statechart

namespace Interpreter

variable {C : Type} {i j k : Interpreter C}

/-! ### What host code sends -/

/-- The message that a signal comes to now, if it is accepted. -/
def message? (i : Interpreter C) : Signal → Option Envelope
  | .send event => if i.isOpen then some (.event event none) else none
  | .stop => if i.isOpen then some .stop else none
  | .emit ref event => (i.emitter? ref).bind fun origin =>
    if i.isAlive origin then some (.event event (some origin)) else none
  | .elapse timer => if i.isOpen then some (.timer timer) else none

theorem message?_of_still (h : j.still = i.still) : j.message? = i.message? := by
  have hj : j.message? = j.still.message? := rfl
  have hi : i.message? = i.still.message? := rfl
  rw [hj, hi, h]

theorem posted_enqueue (i : Interpreter C) (e : Envelope) :
    (i.enqueue e).posted = i.posted ++ [e] := log_note i _

theorem posted_post (i : Interpreter C) (e : Envelope) :
    (i.post e).posted = i.posted ++ (if i.isOpen then some e else none).toList := by
  unfold post
  split
  · exact posted_enqueue i e
  · simp

theorem posted_signal (i : Interpreter C) (s : Signal) :
    (i.signal s).posted = i.posted ++ (i.message? s).toList := by
  have hsent (i : Interpreter C) {n : Entry C} (h : n.posted? = none) :
      (i.note n).posted = i.posted := by
    rw [posted, log_note, h]
    exact List.append_nil _
  cases s with
  | send event =>
    rw [signal, hsent _ rfl, posted_post]
    rfl
  | stop =>
    rw [signal, hsent _ rfl, posted_post]
    rfl
  | emit ref event =>
    cases href : i.emitter? ref with
    | none =>
      have hnone : (Entry.emitted (C := C) none).posted? = none := rfl
      simp [signal, href, message?, hsent _ hnone]
    | some origin =>
      simp only [signal, href, message?, Option.bind_some]
      rw [hsent _ rfl, emit]
      split
      · exact posted_enqueue i _
      · simp
  | elapse timer =>
    rw [signal, posted_post]
    rfl

/-- **What host code sends is put into the queue as far as it is accepted**, in order. -/
theorem posted_deliver (i : Interpreter C) (signals : List Signal) :
    (i.deliver signals).posted = i.posted ++ signals.filterMap i.message? := by
  rw [deliver]
  induction signals generalizing i with
  | nil => simp
  | cons s rest ih =>
    rw [List.foldl_cons, ih, posted_signal, message?_of_still (still_signal i s),
      List.append_assoc]
    cases h : i.message? s <;> simp [h]

/-! ### The balance of the queue -/

theorem piles_note (i : Interpreter C) {n : Entry C} (hposted : n.posted? = none)
    (hdequeued : n.dequeued? = none) : Piles i (i.note n) := by
  constructor
  · rw [Interpreter.dequeued, log_note, hdequeued]
    exact List.append_nil _
  · refine ⟨[], ?_, by simp [note]⟩
    rw [Interpreter.posted, log_note, hposted]
    rfl

theorem piles_enqueue (i : Interpreter C) (e : Envelope) : Piles i (i.enqueue e) where
  dequeued := (log_note i _).trans (List.append_nil _)
  posted := ⟨[e], posted_enqueue i e, rfl⟩

/-- Everything that was put into the queue was taken out or is still in it, in order. Only a stop
and a drop throw something away. -/
structure Balanced (i : Interpreter C) : Prop where
  taken : i.dequeued <+: i.posted
  waiting : i.status ≠ .stopped → i.dropped = false → i.posted = i.dequeued ++ i.queue

theorem Balanced.piles (hi : i.Balanced) (h : Piles i j)
    (hstatus : j.status ≠ .stopped → i.status ≠ .stopped)
    (hdropped : j.dropped = false → i.dropped = false) : j.Balanced := by
  obtain ⟨new, hposted, hqueue⟩ := h.posted
  constructor
  · rw [h.dequeued, hposted]
    exact hi.taken.trans (List.prefix_append _ _)
  · intro hs hd
    rw [h.dequeued, hposted, hqueue, hi.waiting (hstatus hs) (hdropped hd), List.append_assoc]

/-- Where something is thrown away nothing more is taken out. -/
theorem Balanced.of_ended (hi : i.Balanced) (hdequeued : j.dequeued = i.dequeued)
    (hposted : ∃ new, j.posted = i.posted ++ new) (hj : j.status = .stopped ∨ j.dropped = true) :
    j.Balanced := by
  obtain ⟨new, hposted⟩ := hposted
  constructor
  · rw [hdequeued, hposted]
    exact hi.taken.trans (List.prefix_append _ _)
  · intro hs hd
    rcases hj with hj | hj
    · exact absurd hj hs
    · exact nomatch hj.symm.trans hd

theorem piles_react (i : Interpreter C) {e : Entry C} (he : e.isTraffic = false)
    (hdequeued : e.dequeued? = none) (hran : e.ran? = none) (event : Event)
    (actions : List ActionId) (remember : Interpreter C → History) :
    Piles i (i.react e event actions remember).1 :=
  (Holds.react ⟨[], .refl i, by simp⟩ rfl rfl he hdequeued hran event actions remember).piles

/-- A stop takes nothing out of the queue as a message. -/
theorem stop_dequeued (i : Interpreter C) :
    i.stop.1.dequeued = i.dequeued ∧ ∃ new, i.stop.1.posted = i.posted ++ new := by
  have hdiscard (i : Interpreter C) :
      i.discard.dequeued = i.dequeued ∧ i.discard.posted = i.posted :=
    ⟨(log_note i _).trans (List.append_nil _), (log_note i _).trans (List.append_nil _)⟩
  cases hs : i.status with
  | stopped =>
    rw [stop_eq_of_stopped hs]
    exact ⟨rfl, [], (List.append_nil _).symm⟩
  | notStarted =>
    have hnotify (i : Interpreter C) : Piles i i.notify := by
      apply (writes_notify i).piles
      intro n hn
      obtain ⟨_, -, rfl⟩ := List.mem_map.mp hn
      rfl
    obtain ⟨hdequeued, hposted⟩ := hdiscard { i with status := .stopped }
    have hpiles := (piles_note { i with status := .stopped }.discard
      (rfl : (Entry.stoppedUnstarted (C := C)).posted? = none) rfl).trans (hnotify _)
    obtain ⟨new, hnew, -⟩ := hpiles.posted
    rw [stop_eq_of_notStarted hs]
    exact ⟨hpiles.dequeued.trans hdequeued, new, hnew.trans (congrArg (· ++ new) hposted)⟩
  | running =>
    obtain ⟨hdequeued, hposted⟩ :=
      hdiscard (i.shift i.configuration.innermostFirst [] .empty .stopped)
    have hshift := (holds_shift i i.configuration.innermostFirst [] .empty .stopped).piles
    have hreact := piles_react (i.shift i.configuration.innermostFirst [] .empty .stopped).discard
      (rfl : (Entry.stopped (C := C)).isTraffic = false) rfl rfl .stop
      (i.configuration.innermostFirst.flatMap fun s => (i.tree.node s).exit) Interpreter.history
    obtain ⟨a, ha, -⟩ := hshift.posted
    obtain ⟨b, hb, -⟩ := hreact.posted
    rw [stop_eq hs]
    refine ⟨hreact.dequeued.trans (hdequeued.trans hshift.dequeued), a ++ b, ?_⟩
    rw [hb, hposted, ha, List.append_assoc]

/-- The message is taken out, and what is sent meanwhile waits behind the others. -/
structure Consumes (i : Interpreter C) (e : Envelope) (rest : List Envelope) (j : Interpreter C) :
    Prop where
  dequeued : j.dequeued = i.dequeued ++ [e]
  posted : ∃ new, j.posted = i.posted ++ new ∧ (j.status ≠ .stopped → j.queue = rest ++ new)

theorem Piles.consumes {e : Envelope} {rest : List Envelope} (h : Piles (i.draw e rest) j) :
    Consumes i e rest j := by
  have hdequeued : (i.draw e rest).dequeued = i.dequeued ++ [e] := log_note i _
  have hposted : (i.draw e rest).posted = i.posted := (log_note i _).trans (List.append_nil _)
  obtain ⟨new, hnew, hqueue⟩ := h.posted
  exact ⟨h.dequeued.trans hdequeued, new, hposted ▸ hnew, fun _ => hqueue⟩

/-- **To process a message takes it out of the queue**, whatever comes of it. -/
theorem Coherent.consumes (hi : i.Coherent) (e : Envelope) (rest : List Envelope) :
    Consumes i e rest (i.handle e rest).1 := by
  by_cases he : e = .stop
  · subst he
    have hdequeued : (i.pull .stop rest).dequeued = i.dequeued ++ [.stop] := log_note i _
    have hposted : (i.pull .stop rest).posted = i.posted :=
      (log_note i _).trans (List.append_nil _)
    obtain ⟨hstop, new, hnew⟩ := stop_dequeued (i.pull .stop rest)
    exact ⟨hstop.trans hdequeued, new, hposted ▸ hnew, fun h => absurd (stop_status _) h⟩
  · cases hchoice : i.choice? e with
    | none =>
      obtain ⟨n, hn, hhandle⟩ := hi.handle_of_none he hchoice rest
      have hsilent : n.posted? = none ∧ n.dequeued? = none := by
        cases n with
        | enqueued => exact nomatch hn
        | dequeued => exact nomatch hn
        | _ => exact ⟨rfl, rfl⟩
      have hdequeued : (i.pull e rest).dequeued = i.dequeued ++ [e] := log_note i _
      have hposted : (i.pull e rest).posted = i.posted := (log_note i _).trans (List.append_nil _)
      have hpiles := piles_note (i.pull e rest) hsilent.1 hsilent.2
      obtain ⟨new, hnew, hqueue⟩ := hpiles.posted
      rw [hhandle]
      exact ⟨hpiles.dequeued.trans hdequeued, new, hposted ▸ hnew, fun _ => hqueue⟩
    | some choice =>
      rw [(hi.handle_of_some hchoice rest).2]
      exact (take_enacted _ choice.1 choice.2).piles.consumes

theorem Balanced.handle (h : i.Balanced) (hi : i.Coherent) (hs : i.status = .running)
    (hd : i.dropped = false) {e : Envelope} {rest : List Envelope} (hqueue : i.queue = e :: rest) :
    (i.handle e rest).1.Balanced := by
  obtain ⟨hdequeued, new, hposted, hlater⟩ := hi.consumes e rest
  have hwaiting := h.waiting (by simp [hs]) hd
  have hall : (i.handle e rest).1.posted = (i.handle e rest).1.dequeued ++ (rest ++ new) := by
    rw [hposted, hdequeued, hwaiting, hqueue]
    simp
  exact ⟨⟨_, hall.symm⟩, fun hs' _ => by rw [hall, hlater hs']⟩

theorem Balanced.round (hi : i.Coherent) (h : i.Balanced) (hround : Round i j) : j.Balanced := by
  cases hround with
  | enqueue hd e => exact h.piles (piles_enqueue i e) id id
  | refuse hs event => exact h.piles (piles_note i rfl rfl) id id
  | attend observers nextSubscription now => exact ⟨h.taken, h.waiting⟩
  | clock hs present => exact ⟨h.taken, h.waiting⟩
  | launch hs hd hclock =>
    exact h.piles (launch_enacted i).piles (fun _ => by simp [hs]) (fun _ => hd)
  | handle hs hd hqueue => exact h.handle hi hs hd hqueue
  | stop hd =>
    obtain ⟨hdequeued, hposted⟩ := stop_dequeued i
    exact h.of_ended hdequeued hposted (.inl i.stop_status)
  | drop hd =>
    have hpiles := (Holds.foldl holds_stopInvocation i.invocations.reverse i).piles
    obtain ⟨new, hnew, -⟩ := hpiles.posted
    have hdropped := dropped_drop i
    rw [drop_eq hd] at hdropped ⊢
    exact h.of_ended hpiles.dequeued ⟨new, hnew⟩ (.inr hdropped)

theorem Reachable.balanced {d : Definition} {host : Implementations C} {m : Machine C}
    (hm : Machine.build d host = .ok m) (hi : Reachable m i) : i.Balanced :=
  hi.invariant_of_rounds hm (fun _ _ => ⟨List.prefix_rfl, fun _ _ => rfl⟩)
    fun _ _ hi h hround => h.round hi hround

/-! ### Calls that send messages -/

/-- What was sent before a round remains sent. -/
theorem Coherent.posted_round (hi : i.Coherent) (h : Round i j) : i.posted <+: j.posted := by
  have hsame (h : j.posted = i.posted) : i.posted <+: j.posted := h ▸ List.prefix_rfl
  have hnew (h : ∃ new, j.posted = i.posted ++ new) : i.posted <+: j.posted := by
    obtain ⟨new, hposted⟩ := h
    exact ⟨new, hposted.symm⟩
  cases h with
  | enqueue hd e => exact hnew ⟨[e], posted_enqueue i e⟩
  | refuse hs event => exact hsame ((log_note i _).trans (List.append_nil _))
  | attend observers nextSubscription now => exact hsame rfl
  | clock hs present => exact hsame rfl
  | launch hs hd hclock =>
    obtain ⟨new, hposted, -⟩ := (launch_enacted i).piles.posted
    exact hnew ⟨new, hposted⟩
  | handle hs hd hqueue =>
    obtain ⟨new, hposted, -⟩ := (hi.consumes _ _).posted
    exact hnew ⟨new, hposted⟩
  | stop hd => exact hnew (stop_dequeued i).2
  | drop hd =>
    have hpiles := (Holds.foldl holds_stopInvocation i.invocations.reverse i).piles
    obtain ⟨new, hposted, -⟩ := hpiles.posted
    exact hnew ⟨new, by rw [drop_eq hd]; exact hposted⟩

theorem Coherent.posted_rounds (hi : i.Coherent) (h : Rounds i j) : i.posted <+: j.posted := by
  induction h with
  | refl => exact List.prefix_rfl
  | tail hrounds hround ih => exact ih.trans ((Rounds.coherent hrounds hi).posted_round hround)

/-- The message that a call sends, if it is accepted: by an interpreter that is there and, if the
host sends an event itself, not stopped; and from an emitter as long as it is alive. -/
def sending? (i : Interpreter C) : Call C → Option Envelope
  | .send _ event =>
    if i.dropped = false ∧ i.status ≠ .stopped then some (.event event none) else none
  | .post event => if i.isOpen then some (.event event none) else none
  | .requestStop => if i.isOpen then some .stop else none
  | .emit origin event => if i.isAlive origin then some (.event event (some origin)) else none
  | .elapse timer => if i.isOpen then some (.timer timer) else none
  | _ => none

/-- **Who sends from outside sends one message**, if it is accepted, and nothing else. -/
theorem posted_remote {c : Call C} (hc : c.isRemote = true) :
    (i.perform c).posted = i.posted ++ (i.sending? c).toList := by
  have hperform : i.perform c = i.carryOut c := by simp [perform, hc]
  rw [hperform]
  cases c with
  | post event => exact posted_post i _
  | requestStop => exact posted_post i _
  | emit origin event =>
    simp only [carryOut, emit, sending?]
    split
    · exact posted_enqueue i _
    · exact (List.append_nil _).symm
  | elapse timer => exact posted_post i _
  | tick now => exact (List.append_nil _).symm
  | _ => cases hc

/-- **An accepted message is sent before anything else.** -/
theorem Coherent.posted_sending (hi : i.Coherent) {c : Call C} {e : Envelope}
    (h : i.sending? c = some e) : i.posted ++ [e] <+: (i.perform c).posted := by
  cases hc : c.isRemote with
  | true =>
    rw [posted_remote hc, h]
    exact List.prefix_rfl
  | false =>
    cases c with
    | send fuel event =>
      obtain ⟨⟨hd, hs⟩, rfl⟩ : (i.dropped = false ∧ i.status ≠ .stopped) ∧
          Envelope.event event none = e := by simpa [sending?] using h
      have hsent : i.enact (.send fuel event) = i.enqueue (.event event none) := if_neg hs
      have hlater := (carryOut_handles i (.send fuel event)).rounds (enact_dropped hd (by simp))
      rw [hsent, ← perform_of_kept hd] at hlater
      have hoff : (i.enqueue (.event event none)).Coherent := Round.coherent (.enqueue hd _) hi
      rw [← posted_enqueue]
      exact hoff.posted_rounds hlater
    | post event => cases hc
    | requestStop => cases hc
    | emit origin event => cases hc
    | elapse timer => cases hc
    | _ => cases h

/-! ### Calls that process messages -/

/-- How a call ends. -/
def outcome (i : Interpreter C) : Call C → Outcome
  | .start fuel => (i.start fuel).2
  | .send fuel event => (i.send fuel event).2
  | .drain fuel => (i.drain fuel).2
  | .next fuel => (i.next fuel).2
  | _ => .done

/-- The call processes messages. A start does so unless the machine was started before. -/
def Drains (i : Interpreter C) : Call C → Prop
  | .start _ => i.status = .notStarted
  | .send .. | .drain _ | .next _ => True
  | _ => False

/-- The messages are processed one after another, and no action fails. -/
inductive Processes : Interpreter C → List Envelope → Interpreter C → Prop
  | nil (i : Interpreter C) : Processes i [] i
  | cons {i j : Interpreter C} {e : Envelope} {rest es : List Envelope}
      (hs : i.status = .running) (hqueue : i.queue = e :: rest)
      (hfault : (i.handle e rest).2 = none) (h : Processes (i.handle e rest).1 es j) :
      Processes i (e :: es) j

theorem Processes.consumed {es : List Envelope} (h : Processes i es j) (hi : i.Coherent)
    (hd : i.dropped = false) :
    j.Coherent ∧ j.dropped = false ∧ j.dequeued = i.dequeued ++ es ∧
      ∃ new, j.posted = i.posted ++ new := by
  induction h with
  | nil => exact ⟨hi, hd, (List.append_nil _).symm, [], (List.append_nil _).symm⟩
  | @cons i j e rest es hs hqueue hfault _ ih =>
    have hround : Round i (i.handle e rest).1 := .handle hs hd hqueue
    obtain ⟨hdequeued, new, hposted, -⟩ := hi.consumes e rest
    obtain ⟨hj, hd', hdequeued', new', hposted'⟩ :=
      ih (hround.coherent hi) (handle_dropped i hs hd e rest)
    refine ⟨hj, hd', ?_, new ++ new', ?_⟩
    · rw [hdequeued', hdequeued, List.append_assoc]
      rfl
    · rw [hposted', hposted, List.append_assoc]

theorem drain_done {fuel : Nat} (h : (i.drain fuel).2 = .done)
    (hs : (i.drain fuel).1.status = .running) : (i.drain fuel).1.queue = [] := by
  induction fuel generalizing i with
  | zero =>
    rw [drain] at h hs ⊢
    by_contra hqueue
    have hbusy : i.status = .running ∧ i.queue ≠ [] := ⟨hs, hqueue⟩
    simp only [if_pos hbusy] at h
    cases h
  | succ fuel ih =>
    rcases i.idle_or_busy with hidle | ⟨e, rest, hs', hqueue⟩
    · rw [drain_idle hidle] at hs ⊢
      exact hidle.resolve_left (not_not_intro hs)
    · rw [drain_succ hs' hqueue] at h hs ⊢
      cases hfault : (i.handle e rest).2 with
      | some fault =>
        simp only [hfault] at h
        cases h
      | none =>
        simp only [hfault] at h hs ⊢
        exact ih h hs

/-- Where processing fails, it was all well up to the message that the failing action belongs to. -/
theorem drain_failed {fuel : Nat} {fault : Fault} (h : (i.drain fuel).2 = .failed fault) :
    ∃ es k e rest, Processes i es k ∧ k.status = .running ∧ k.queue = e :: rest ∧
      k.handle e rest = ((i.drain fuel).1, some fault) := by
  induction fuel generalizing i with
  | zero =>
    rw [drain] at h
    split at h <;> cases h
  | succ fuel ih =>
    rcases i.idle_or_busy with hidle | ⟨e, rest, hs, hqueue⟩
    · rw [drain_idle hidle] at h
      cases h
    · rw [drain_succ hs hqueue] at h ⊢
      cases hfault : (i.handle e rest).2 with
      | some other =>
        simp only [hfault] at h ⊢
        cases h
        exact ⟨[], i, e, rest, .nil i, hs, hqueue, Prod.ext rfl hfault⟩
      | none =>
        simp only [hfault] at h ⊢
        obtain ⟨es, k, e', rest', hes, hk⟩ := ih h
        exact ⟨e :: es, k, e', rest', .cons hs hqueue hfault hes, hk⟩

/-- What is left of a call that processes messages once its first part is done. A start whose action
on entry fails processes no messages, nor does a call that finds or leaves no running machine. -/
theorem carryOut_cases {c : Call C} (hc : i.Drains c) :
    (i.carryOut c).status ≠ .running ∨ i.outcome c = .waiting ∨
    (∃ fuel fault, c = .start fuel ∧ i.launch = (i.carryOut c, some fault) ∧
      i.outcome c = .failed fault) ∨
    ∃ fuel, (i.enact c).drain fuel = (i.carryOut c, i.outcome c) := by
  cases c with
  | start fuel =>
    have hs : i.status = .notStarted := hc
    by_cases hclock : i.Clocked
    · rw [enact_start i fuel hs hclock, carryOut, outcome, start_eq fuel hs hclock]
      cases hfault : i.launch.2 with
      | some fault => exact .inr (.inr (.inl ⟨fuel, fault, rfl, Prod.ext rfl hfault, rfl⟩))
      | none => exact .inr (.inr (.inr ⟨fuel, rfl⟩))
    · left
      rw [carryOut, start_refused hs hclock, hs]
      simp
  | send fuel event =>
    cases hs : i.status with
    | stopped =>
      left
      simp [carryOut, send, hs, note]
    | notStarted => exact .inr (.inr (.inr ⟨fuel, by simp [enact, carryOut, outcome, send, hs]⟩))
    | running => exact .inr (.inr (.inr ⟨fuel, by simp [enact, carryOut, outcome, send, hs]⟩))
  | drain fuel => exact .inr (.inr (.inr ⟨fuel, rfl⟩))
  | next fuel =>
    cases hs : i.status with
    | notStarted => exact .inl (by simp [carryOut, next, hs])
    | stopped => exact .inl (by simp [carryOut, next, hs])
    | running =>
      cases hqueue : i.queue.isEmpty with
      | true => exact .inr (.inl (by simp [outcome, next, hs, hqueue]))
      | false =>
        exact .inr (.inr (.inr ⟨fuel, by simp [enact, carryOut, outcome, next, hs, hqueue]⟩))
  | _ => exact hc.elim

theorem enact_piles {c : Call C} (hc : i.Drains c) : Piles i (i.enact c) := by
  have hrefl : Piles i i := ⟨rfl, [], by simp⟩
  cases c with
  | start fuel =>
    by_cases h : i.status = .notStarted ∧ i.Clocked
    · rw [enact_start i fuel h.1 h.2]
      exact (launch_enacted i).piles
    · rw [(enact_start_of_not i fuel h).1]
      exact hrefl
  | send fuel event =>
    simp only [enact]
    split
    · exact piles_note i rfl rfl
    · exact piles_enqueue i _
  | drain fuel => exact hrefl
  | next fuel => exact hrefl
  | _ => exact hc.elim

/-! ### Failures -/

/-- Of the actions that are run from `i` to `j` the last one fails. The others succeed, all are run
once and in order, and none of those behind is run. -/
def FailsIn (i j : Interpreter C) (event : Event) (actions : List ActionId) (fault : Fault) :
    Prop :=
  ∃ done a cause, i.machine.Stumbles event i.context actions done a cause ∧
    fault = .actionFailed (i.tree.actionName a) event.name cause ∧
    j.ran = i.ran ++ (done ++ [a]).map fun a => (i.tree.actionName a, event.name)

theorem Enacted.failsIn {event : Event} {actions : List ActionId} {fault : Fault}
    (h : Enacted i event actions (j, some fault)) : FailsIn i j event actions fault := by
  obtain ⟨⟨a, cause⟩, hfailure, rfl⟩ := Option.map_eq_some_iff.mp h.failure.symm
  obtain ⟨done, hdone⟩ := Machine.stumbles_of_failure? hfailure
  refine ⟨done, a, cause, hdone, rfl, ?_⟩
  rw [← hdone.attempted]
  exact h.ran

/-- **A message is processed in vain if an action fails, and only then.** -/
theorem Coherent.fails_of_handle (hi : i.Coherent) {e : Envelope} {rest : List Envelope}
    {fault : Fault} (h : i.handle e rest = (j, some fault)) (hs : j.status = .running) :
    ∃ tr event, i.choice? e = some (tr, event) ∧
      FailsIn i j event (i.tree.plan i.configuration tr).actions fault := by
  have he : e ≠ .stop := by
    rintro rfl
    have hstopped := stop_status (i.pull .stop rest)
    have hj : (i.pull .stop rest).stop.1 = j := congrArg Prod.fst h
    rw [hj, hs] at hstopped
    exact nomatch hstopped
  cases hchoice : i.choice? e with
  | none =>
    obtain ⟨n, -, hhandle⟩ := hi.handle_of_none he hchoice rest
    exact nomatch congrArg Prod.snd (hhandle.symm.trans h)
  | some choice =>
    obtain ⟨tr, event⟩ := choice
    have hran : (i.draw e rest).ran = i.ran := (log_note i _).trans (List.append_nil _)
    have hentry := take_enacted (i.draw e rest) tr event
    rw [(hi.handle_of_some hchoice rest).2] at h
    rw [h] at hentry
    obtain ⟨done, a, cause, hstumbles, hfault, hrun⟩ := hentry.failsIn
    exact ⟨tr, event, rfl, done, a, cause, hstumbles, hfault, hran ▸ hrun⟩

/-- How far a call has come that failed while the machine runs on. It took the messages in `taken`
out of the queue: none if an action on entry failed, and otherwise those up to the message that the
failing action belongs to. -/
inductive Failed (i : Interpreter C) (c : Call C) (j : Interpreter C) (fault : Fault) :
    List Envelope → Prop
  | entry (fuel : Nat) (hc : c = .start fuel)
      (h : FailsIn i j .init i.tree.opening.actions fault) : Failed i c j fault []
  | message {k : Interpreter C} {before rest : List Envelope} {e : Envelope} {tr : Transition}
      {event : Event} (hbefore : Processes (i.enact c) before k) (hs : k.status = .running)
      (hqueue : k.queue = e :: rest) (hhandle : k.handle e rest = (j, some fault))
      (hchoice : k.choice? e = some (tr, event))
      (h : FailsIn k j event (k.tree.plan k.configuration tr).actions fault) :
      Failed i c j fault (before ++ [e])

theorem Coherent.failed_of_outcome (hi : i.Coherent) (hd : i.dropped = false) {c : Call C}
    (hc : i.Drains c) {fault : Fault} (hfault : i.outcome c = .failed fault)
    (hs : (i.carryOut c).status = .running) :
    ∃ taken new, (i.carryOut c).posted = i.posted ++ new ∧
      (i.carryOut c).dequeued = i.dequeued ++ taken ∧ Failed i c (i.carryOut c) fault taken := by
  have hround := enact_round hd c
  obtain ⟨hdequeued, new, hposted, -⟩ := enact_piles hc
  rcases carryOut_cases hc with
    hover | hwaiting | ⟨fuel, other, rfl, hlaunch, hother⟩ | ⟨fuel, hdrain⟩
  · exact absurd hs hover
  · exact nomatch hfault.symm.trans hwaiting
  · cases hfault.symm.trans hother
    have hentry := launch_enacted i
    rw [hlaunch] at hentry
    obtain ⟨hdequeued, new, hposted, -⟩ := hentry.piles
    exact ⟨[], new, hposted, by simpa using hdequeued, .entry fuel rfl hentry.failsIn⟩
  · have hoff : (i.enact c).Coherent := by
      rcases hround with hsame | hround
      · rwa [hsame]
      · exact hround.coherent hi
    have hd' : (i.enact c).dropped = false := enact_dropped hd (by rintro rfl; exact hc)
    have hout : ((i.enact c).drain fuel).2 = i.outcome c := congrArg Prod.snd hdrain
    rw [← hout] at hfault
    -- Three times something is sent: at first, by the messages before, and by the one that fails.
    obtain ⟨before, k, e, rest, hbefore, hs', hqueue, hhandle⟩ := drain_failed hfault
    rw [hdrain] at hhandle
    obtain ⟨hk, -, hdequeued', new', hposted'⟩ := hbefore.consumed hoff hd'
    obtain ⟨hdequeued'', new'', hposted'', -⟩ := hk.consumes e rest
    rw [hhandle] at hdequeued'' hposted''
    obtain ⟨tr, event, hchoice, hfails⟩ := hk.fails_of_handle hhandle hs
    refine ⟨before ++ [e], new ++ new' ++ new'', ?_, ?_,
      .message hbefore hs' hqueue hhandle hchoice hfails⟩
    · rw [hposted'', hposted', hposted, List.append_assoc, List.append_assoc, List.append_assoc]
    · rw [hdequeued'', hdequeued', hdequeued, List.append_assoc]

/-- A call that processes messages leaves none behind, unless it fails or waits. -/
theorem queue_of_done {c : Call C} (hc : i.Drains c) (hdone : i.outcome c = .done)
    (hs : (i.carryOut c).status = .running) : (i.carryOut c).queue = [] := by
  rcases carryOut_cases hc with hover | hwaiting | ⟨fuel, fault, -, -, hfault⟩ | ⟨fuel, hdrain⟩
  · exact absurd hs hover
  · rw [hwaiting] at hdone
    cases hdone
  · rw [hfault] at hdone
    cases hdone
  · have hafter : ((i.enact c).drain fuel).1 = i.carryOut c := congrArg Prod.fst hdrain
    have hout : ((i.enact c).drain fuel).2 = i.outcome c := congrArg Prod.snd hdrain
    rw [← hout] at hdone
    rw [← hafter] at hs ⊢
    exact drain_done hdone hs

/-- What a call takes out of the queue and what it leaves there is what was in it and what was sent
meanwhile. -/
theorem Balanced.queue_append (hi : i.Balanced) {c : Call C} (hc : i.Drains c)
    (hd : i.dropped = false) (hj : (i.carryOut c).Balanced)
    (hs : (i.carryOut c).status = .running) {taken new : List Envelope}
    (hposted : (i.carryOut c).posted = i.posted ++ new)
    (hdequeued : (i.carryOut c).dequeued = i.dequeued ++ taken) :
    i.queue ++ new = taken ++ (i.carryOut c).queue := by
  -- What is stopped never runs again, so until now nothing was thrown away.
  have hstarted : i.status ≠ .stopped := by
    intro hstopped
    have hrank := perform_rank i c
    rw [perform_of_kept hd, hs, hstopped] at hrank
    simp [Status.rank] at hrank
  have hkept : c ≠ .drop := by
    rintro rfl
    exact hc
  have hthere : (i.carryOut c).dropped = false := (carryOut_moves hkept hd).dropped.trans hd
  have hnow := hj.waiting (by simp [hs]) hthere
  rw [hposted, hdequeued, hi.waiting hstarted hd, List.append_assoc, List.append_assoc] at hnow
  exact List.append_cancel_left hnow

/-- **No message is lost, repeated or put out of order.** What was taken out of the queue is a
beginning of what was put into it, and until a stop or a drop the rest is what waits. What host code
sends while it runs is put into it as far as it is accepted, and so is, before anything else, what a
call sends. A call that processes messages leaves none behind, unless an action fails. Then the
messages up to the one it belongs to were taken out and those behind it wait, the failure is that of
the first action that fails, the actions before it were run once, and none after it was run. -/
theorem Reachable.nothing_lost {d : Definition} {host : Implementations C} {m : Machine C}
    (hm : Machine.build d host = .ok m) (hi : Reachable m i) :
    i.dequeued <+: i.posted ∧
    (i.status ≠ .stopped → i.dropped = false → i.posted = i.dequeued ++ i.queue) ∧
    (∀ signals, (i.deliver signals).posted = i.posted ++ signals.filterMap i.message?) ∧
    (∀ c e, i.sending? c = some e → i.posted ++ [e] <+: (i.perform c).posted) ∧
    (∀ c, c.isRemote = true → (i.perform c).posted = i.posted ++ (i.sending? c).toList) ∧
    (∀ c, i.dropped = false → i.Drains c → (i.perform c).status = .running →
      (i.outcome c = .done → (i.perform c).queue = []) ∧
      ∀ fault, i.outcome c = .failed fault → ∃ taken new,
        (i.perform c).posted = i.posted ++ new ∧
        (i.perform c).dequeued = i.dequeued ++ taken ∧
        i.queue ++ new = taken ++ (i.perform c).queue ∧
        Failed i c (i.perform c) fault taken) := by
  have hbalanced := hi.balanced hm
  refine ⟨hbalanced.taken, hbalanced.waiting, posted_deliver i,
    fun _ _ => (hi.coherent hm).posted_sending, fun _ => posted_remote, ?_⟩
  intro c hd hc hs
  have hlater := (hi.call c).balanced hm
  rw [perform_of_kept hd] at hs hlater ⊢
  refine ⟨fun hdone => queue_of_done hc hdone hs, ?_⟩
  intro fault hfault
  obtain ⟨taken, new, hposted, hdequeued, hfailed⟩ :=
    (hi.coherent hm).failed_of_outcome hd hc hfault hs
  exact ⟨taken, new, hposted, hdequeued,
    hbalanced.queue_append hc hd hlater hs hposted hdequeued, hfailed⟩

end Interpreter

/-- A fuse that two surges wait for. -/
def fuseWaiting : Interpreter Nat :=
  ((Interpreter.new fuseMachine 0).withHistoryLimit 10).after
    [.start 1, .post (.named "surge"), .post (.named "surge")]

/-- The first surge is over though melting failed, and the second one waits. -/
theorem fuseWaiting_nothing_lost :
    let c : Call Nat := .drain 5
    let blown := fuseWaiting.perform c
    fuseWaiting.outcome c = .failed (.actionFailed "melt" "surge" ⟨"molten"⟩) ∧
    blown.ran = [("count", "surge"), ("melt", "surge")] ∧ blown.queue.length = 1 ∧
    ∃ taken new, fuseWaiting.queue ++ new = taken ++ blown.queue := by
  intro c blown
  have hreachable : Interpreter.Reachable fuseMachine fuseWaiting :=
    Interpreter.reachable_after (.fresh 0 10) _
  have hthere : fuseWaiting.dropped = false := by decide +kernel
  have hrunning : blown.status = .running := by decide +kernel
  have hfailed : fuseWaiting.outcome c = .failed (.actionFailed "melt" "surge" ⟨"molten"⟩) := by
    decide +kernel
  obtain ⟨-, -, -, -, -, hcalls⟩ := Interpreter.Reachable.nothing_lost build_fuse hreachable
  obtain ⟨taken, new, -, -, hqueue, -⟩ :=
    (hcalls c hthere trivial hrunning).2 _ hfailed
  exact ⟨hfailed, by decide +kernel, by decide +kernel, taken, new, hqueue⟩

end Statechart
