import Statechart.Proofs.Interpreter.Coherence

/-!
# Rounds

Seen from message to message, a run is a sequence of rounds (`Round`): a message is put into the
queue, the next one is taken out and processed, the machine is started or stopped. Every call is a
number of rounds (`perform_rounds`), so what no round breaks holds in every reachable state.

What a message comes to is decided by the core alone. A message that is not stale tells the core
something (`Impulse`); if that leads to a transition, the transition is taken (`handle_of_some`),
and in all other cases the message is dismissed (`handle_of_none`).
-/

namespace Statechart

/-! ### What a message tells the core -/

/-- What the core is told: that an event occurred, or that the time of a delay is over. -/
inductive Impulse where
  | event (event : Event)
  | delay (delay : Delay)

namespace Impulse

/-- The event that actions see. -/
def occasion : Impulse → Event
  | event e => e
  | delay d => .named d.event

/-- The step that the core makes of it, if it makes one. -/
def step? (t : StateTree) (c : Configuration) : Impulse → Option Step
  | event e => t.step c e.name
  | delay d => some (t.plan c d.transition)

/-- The transition that is taken, if there is one. -/
def transition? (t : StateTree) (c : Configuration) : Impulse → Option Transition
  | event e => t.select c e.name
  | delay d => some d.transition

theorem step?_eq (t : StateTree) (c : Configuration) (x : Impulse) :
    x.step? t c = (x.transition? t c).map (t.plan c) := by
  cases x <;> rfl

end Impulse

/-- What has a key of its own is found under that key. -/
theorem find?_of_unique {α κ : Type} [BEq κ] [LawfulBEq κ] {key : α → κ} {l : List α} {a : α}
    (ha : a ∈ l) (hunique : ∀ b ∈ l, key b = key a → b = a) :
    l.find? (fun b => key b == key a) = some a := by
  cases hfind : l.find? fun b => key b == key a with
  | none =>
    have hnone := List.find?_eq_none.mp hfind a ha
    simp at hnone
  | some b =>
    have hkey : key b = key a := by simpa using List.find?_some hfind
    rw [hunique b (List.mem_of_find?_eq_some hfind) hkey]

/-- The message is the elapsed delay of the timer with that number. -/
def Envelope.isTimer : Envelope → TimerId → Bool
  | timer id, other => other == id
  | _, _ => false

/-- The entry says that a message has no effect. -/
def Entry.isDismissal {C : Type} : Entry C → Bool
  | stale .. | unhandled .. | timerWasCancelled _ => true
  | _ => false

namespace Interpreter

variable {C : Type} {i j : Interpreter C}

/-- The message comes too late: its invocation runs no more, or its timer is not armed any more. -/
def Stale (i : Interpreter C) : Envelope → Prop
  | .event _ (some origin) => i.isLive origin = false
  | .timer id => ∀ t ∈ i.timers, t.id ≠ id
  | _ => False

/-- What a message tells the core. A stale one tells nothing, nor does the request to stop. -/
def impulse? (i : Interpreter C) : Envelope → Option Impulse
  | .event event none => some (.event event)
  | .event event (some origin) => if i.isLive origin then some (.event event) else none
  | .timer id => (i.timers.find? fun t => t.id == id).bind fun t =>
    ((i.tree.node t.state).after[t.index]?).map .delay
  | .stop => none

/-- The transition that a message leads to, and the event that the actions see. -/
def choice? (i : Interpreter C) (e : Envelope) : Option (Transition × Event) :=
  (i.impulse? e).bind fun x =>
    (x.transition? i.tree i.configuration).map fun tr => (tr, x.occasion)

/-- Take a message up. If it is an elapsed delay its timer is armed no more. -/
def draw (i : Interpreter C) (e : Envelope) (rest : List Envelope) : Interpreter C :=
  { i.pull e rest with timers := i.timers.filter fun t => !e.isTimer t.id }

theorem draw_eq (i : Interpreter C) (e : Envelope) (rest : List Envelope)
    (h : ∀ t ∈ i.timers, e.isTimer t.id = false) : i.draw e rest = i.pull e rest := by
  have hall : (i.timers.filter fun t => !e.isTimer t.id) = i.timers :=
    List.filter_eq_self.mpr fun t ht => by rw [h t ht, Bool.not_false]
  rw [draw, hall]
  rfl

theorem handle_stop (i : Interpreter C) (rest : List Envelope) :
    i.handle .stop rest = (i.draw .stop rest).stop := by
  rw [i.draw_eq .stop rest fun _ _ => rfl]
  rfl

theorem Coherent.draw (hi : i.Coherent) (e : Envelope) (rest : List Envelope) :
    (i.draw e rest).Coherent := by
  cases e with
  | event event origin =>
    rw [i.draw_eq (.event event origin) rest fun _ _ => rfl]
    exact hi.pull _ rest
  | timer id => exact (hi.expire id).alike (alike_aside _ rest _ _ _ _ _)
  | stop =>
    rw [i.draw_eq .stop rest fun _ _ => rfl]
    exact hi.pull _ rest

theorem stop_status (i : Interpreter C) : i.stop.1.status = .stopped := by
  cases hs : i.status with
  | stopped => simp [stop, hs]
  | notStarted =>
    rw [stop_eq_of_notStarted hs, (untouched_notify _).status]
    rfl
  | running =>
    rw [stop_eq hs, (alike_react _ rfl _ _ _).status, (alike_discard _).status]
    simp

theorem processEvent_of_stale {event : Event} {origin : InvocationId}
    (h : i.isLive origin = false) :
    i.processEvent event (some origin) = (i.note (.stale event.name origin), none) := by
  simp [processEvent, Option.filter, h]

/-- An event that tells the core something is not dropped. -/
theorem filter_origin {event : Event} {origin : Option InvocationId}
    (h : i.impulse? (.event event origin) = some (.event event)) :
    (origin.filter fun o => !i.isLive o) = none := by
  cases origin with
  | none => rfl
  | some origin =>
    cases hlive : i.isLive origin with
    | true => simp [Option.filter, hlive]
    | false => simp [impulse?, hlive] at h

theorem processEvent_of_some {event : Event} {origin : Option InvocationId} {tr : Transition}
    (h : i.impulse? (.event event origin) = some (.event event))
    (hselect : i.tree.select i.configuration event.name = some tr) :
    i.processEvent event origin = i.take tr event := by
  simp only [processEvent, filter_origin h, hselect]

theorem processEvent_of_none {event : Event} {origin : Option InvocationId}
    (h : i.impulse? (.event event origin) = some (.event event))
    (hselect : i.tree.select i.configuration event.name = none) :
    i.processEvent event origin = (i.note (.unhandled event.name i.value), none) := by
  simp only [processEvent, filter_origin h, hselect]

theorem impulse?_event (i : Interpreter C) (event : Event) (origin : Option InvocationId) :
    (i.impulse? (.event event origin) = some (.event event)) ∨
      (∃ gone, origin = some gone ∧ i.isLive gone = false ∧
        i.impulse? (.event event origin) = none) := by
  cases origin with
  | none => exact .inl rfl
  | some origin =>
    cases hlive : i.isLive origin with
    | true => exact .inl (by simp [impulse?, hlive])
    | false => exact .inr ⟨origin, rfl, hlive, by simp [impulse?, hlive]⟩

/-- An elapsed delay of an armed timer tells that the time of its delay is over. -/
theorem Coherent.impulse?_timer (hi : i.Coherent) {t : Timer} (ht : t ∈ i.timers) :
    ∃ delay, (i.tree.node t.state).after[t.index]? = some delay ∧ delay.millis = t.millis ∧
      i.impulse? (.timer t.id) = some (.delay delay) := by
  obtain ⟨-, delay, hdelay, hmillis⟩ :=
    StateTree.mem_delayKeys.mp (hi.timers.subset (List.mem_map_of_mem ht))
  have hdelay : (i.tree.node t.state).after[t.index]? = some delay := hdelay
  have hfind : (i.timers.find? fun u => u.id == t.id) = some t :=
    find?_of_unique ht fun _ hu hid => hi.numbered.timer_unique hu ht hid
  exact ⟨delay, hdelay, hmillis, by simp [impulse?, hfind, hdelay]⟩

/-- All messages tell the core something but stale ones and the request to stop. -/
theorem Coherent.impulse?_eq_none_iff (hi : i.Coherent) {e : Envelope} :
    i.impulse? e = none ↔ e = .stop ∨ i.Stale e := by
  cases e with
  | event event origin =>
    cases origin with
    | none => simp [impulse?, Stale]
    | some origin => simp [impulse?, Stale]
  | timer id =>
    constructor
    · intro hnone
      right
      intro t ht hid
      obtain ⟨delay, -, -, himpulse⟩ := hi.impulse?_timer ht
      rw [hid, hnone] at himpulse
      cases himpulse
    · intro hgone
      have hstale : i.Stale (.timer id) := hgone.resolve_left (by simp)
      have hfind : (i.timers.find? fun t => t.id == id) = none :=
        List.find?_eq_none.mpr fun t ht => by simpa using hstale t ht
      rw [impulse?, hfind, Option.bind_none]
  | stop => simp [impulse?]

/-- A message leads to a transition because of what it tells the core. -/
theorem exists_impulse {e : Envelope} {tr : Transition} {event : Event}
    (h : i.choice? e = some (tr, event)) :
    ∃ x, i.impulse? e = some x ∧ x.transition? i.tree i.configuration = some tr ∧
      event = x.occasion := by
  obtain ⟨x, himpulse, hx⟩ := Option.bind_eq_some_iff.mp h
  obtain ⟨_, htr, heq⟩ := Option.map_eq_some_iff.mp hx
  cases heq
  exact ⟨x, himpulse, htr, rfl⟩

theorem transition?_eq_none {e : Envelope} {x : Impulse} (h : i.choice? e = none)
    (himpulse : i.impulse? e = some x) : x.transition? i.tree i.configuration = none := by
  rwa [choice?, himpulse, Option.bind_some, Option.map_eq_none_iff] at h

/-- **A message that leads to no transition is dismissed.** -/
theorem Coherent.handle_of_none (hi : i.Coherent) {e : Envelope} (he : e ≠ .stop)
    (hnone : i.choice? e = none) (rest : List Envelope) :
    ∃ n : Entry C, n.isDismissal = true ∧ i.handle e rest = ((i.pull e rest).note n, none) := by
  cases e with
  | event event origin =>
    rcases i.impulse?_event event origin with himpulse | ⟨gone, rfl, hgone, -⟩
    · have hselect : i.tree.select i.configuration event.name = none := by
        simpa [choice?, himpulse, Impulse.transition?] using hnone
      have hselect : (i.pull (.event event origin) rest).tree.select
          (i.pull (.event event origin) rest).configuration event.name = none := hselect
      have hlive : (i.pull (.event event origin) rest).impulse? (.event event origin) =
          some (.event event) := himpulse
      refine ⟨.unhandled event.name (i.pull (.event event origin) rest).value, rfl, ?_⟩
      exact processEvent_of_none hlive hselect
    · have hgone : (i.pull (.event event (some gone)) rest).isLive gone = false := hgone
      exact ⟨.stale event.name gone, rfl, processEvent_of_stale hgone⟩
  | timer id =>
    rcases hi.handle_timer id rest with ⟨t, ht, rfl, -⟩ | ⟨-, hhandle⟩
    · obtain ⟨delay, -, -, himpulse⟩ := hi.impulse?_timer ht
      simp [choice?, himpulse, Impulse.transition?] at hnone
    · exact ⟨.timerWasCancelled id, rfl, hhandle⟩
  | stop => exact absurd rfl he

/-- **A message that leads to a transition has it taken.** -/
theorem Coherent.handle_of_some (hi : i.Coherent) {e : Envelope} {tr : Transition} {event : Event}
    (hsome : i.choice? e = some (tr, event)) (rest : List Envelope) :
    (∃ s ∈ i.configuration.states, tr ∈ (i.tree.node s).declared) ∧
      i.handle e rest = (i.draw e rest).take tr event := by
  obtain ⟨x, himpulse, htr, rfl⟩ := exists_impulse hsome
  cases e with
  | event event origin =>
    -- The origin is live if there is one: of a stale message the core is told nothing.
    rcases i.impulse?_event event origin with hlive | ⟨gone, _, _, hgone⟩
    · obtain rfl := Option.some.inj (himpulse.symm.trans hlive)
      have hselect : (i.pull (.event event origin) rest).tree.select
          (i.pull (.event event origin) rest).configuration event.name = some tr := htr
      have hlive : (i.pull (.event event origin) rest).impulse? (.event event origin) =
          some (.event event) := hlive
      refine ⟨StateTree.exists_of_select htr, ?_⟩
      rw [i.draw_eq (.event event origin) rest fun _ _ => rfl]
      exact processEvent_of_some hlive hselect
    · exact nomatch hgone.symm.trans himpulse
  | timer id =>
    obtain ⟨t, hfind, hmap⟩ := Option.bind_eq_some_iff.mp himpulse
    obtain ⟨delay, hdelay, rfl⟩ := Option.map_eq_some_iff.mp hmap
    cases htr
    have ht : t ∈ i.timers := List.mem_of_find?_eq_some hfind
    have hactive := hi.state_mem ht
    exact ⟨⟨t.state, hactive, mem_declared_of_after hdelay⟩,
      processTimer_of_armed hfind hactive hdelay⟩
  | stop => exact nomatch himpulse

/-- A message that leads to no transition belongs to no armed timer. -/
theorem Coherent.draw_of_none (hi : i.Coherent) {e : Envelope} (hnone : i.choice? e = none)
    (rest : List Envelope) : i.draw e rest = i.pull e rest := by
  apply draw_eq
  intro t ht
  cases e with
  | timer id =>
    rw [← Bool.not_eq_true]
    intro hid
    obtain rfl : t.id = id := by simpa [Envelope.isTimer] using hid
    obtain ⟨delay, -, -, himpulse⟩ := hi.impulse?_timer ht
    simp [choice?, himpulse, Impulse.transition?] at hnone
  | _ => rfl

/-! ### Rounds -/

/-- What happens at a time. -/
inductive Round (i : Interpreter C) : Interpreter C → Prop
  | enqueue (hd : i.dropped = false) (e : Envelope) : Round i (i.enqueue e)
  | refuse (hs : i.status = .stopped) (event : String) : Round i (i.note (.refused event))
  /-- Others watch, or time goes by. -/
  | attend (observers : List (Nat × Observer C)) (nextSubscription : Nat) (now : Instant) :
      Round i { i with observers, nextSubscription, now }
  | clock (hs : i.status = .notStarted) (present : Bool) : Round i { i with hasClock := present }
  | launch (hs : i.status = .notStarted) (hd : i.dropped = false) (hclock : i.Clocked) :
      Round i i.launch.1
  | handle (hs : i.status = .running) (hd : i.dropped = false) {e : Envelope}
      {rest : List Envelope} (hqueue : i.queue = e :: rest) : Round i (i.handle e rest).1
  | stop (hd : i.dropped = false) : Round i i.stop.1
  | drop (hd : i.dropped = false) : Round i i.drop

/-- A number of rounds. -/
abbrev Rounds : Interpreter C → Interpreter C → Prop := Relation.ReflTransGen Round

/-- A round is a number of moves, unless it drops the interpreter. -/
theorem Round.moves (h : Round i j) : Moves i j ∨ i.dropped = false ∧ j = i.drop := by
  cases h with
  | enqueue hd e =>
    have hnote := alike_note i (rfl : Entry.isDeed (.enqueued e) = false)
    exact .inl (hnote.trans (alike_aside _ _ _ _ _ _ _)).moves
  | refuse hs event => exact .inl (alike_note i rfl).moves
  | attend observers nextSubscription now => exact .inl (alike_aside i _ _ _ _ _ _).moves
  | clock hs present => exact .inl (.single (.clock hs present))
  | launch hs hd hclock => exact .inl (launch_moves hs hd hclock)
  | handle hs hd hqueue => exact .inl (handle_moves hs hd _ _)
  | stop hd => exact .inl (stop_moves hd)
  | drop hd => exact .inr ⟨hd, rfl⟩

/-- What no move breaks, and no drop, no round breaks. -/
theorem Round.keeps {P : Interpreter C → Prop} (hmove : ∀ i j, P i → Move i j → P j)
    (hdrop : ∀ i, P i → i.dropped = false → P i.drop) (h : Round i j) (hi : P i) : P j := by
  have hmoves {k : Interpreter C} (hik : Moves i k) : P k := by
    induction hik with
    | refl => exact hi
    | tail _ h ih => exact hmove _ _ ih h
  rcases h.moves with hij | ⟨hd, rfl⟩
  · exact hmoves hij
  · exact hdrop i hi hd

theorem Round.coherent (h : Round i j) (hi : i.Coherent) : j.Coherent :=
  h.keeps (fun _ _ => Coherent.move) (fun _ => Coherent.drop) hi

theorem Round.machine (h : Round i j) : j.machine = i.machine :=
  h.keeps (P := fun k => k.machine = i.machine) (fun _ _ hk hmove => hmove.machine.trans hk)
    (fun _ hk hd => (sameScene_drop hd).machine.trans hk) rfl

theorem Rounds.machine (h : Rounds i j) : j.machine = i.machine := by
  induction h with
  | refl => rfl
  | tail _ hround ih => exact hround.machine.trans ih

theorem Rounds.coherent (h : Rounds i j) (hi : i.Coherent) : j.Coherent := by
  induction h with
  | refl => exact hi
  | tail _ hround ih => exact hround.coherent ih

/-- An interpreter that was dropped stays so. -/
theorem Round.dropped (h : Round i j) (hd : i.dropped = true) : j.dropped = true := by
  rcases h.moves with hmoves | ⟨hthere, -⟩
  · exact hmoves.dropped.trans hd
  · exact nomatch hd.symm.trans hthere

theorem Rounds.dropped (h : Rounds i j) (hd : i.dropped = true) : j.dropped = true := by
  induction h with
  | refl => exact hd
  | tail _ hround ih => exact hround.dropped ih

/-- What no round breaks no number of rounds breaks. -/
theorem Rounds.preserve {P : Interpreter C → Prop}
    (hround : ∀ i j, i.Coherent → P i → Round i j → P j) (h : Rounds i j) (hi : i.Coherent)
    (hP : P i) : P j := by
  induction h with
  | refl => exact hP
  | tail hrounds h ih => exact hround _ _ (Rounds.coherent hrounds hi) ih h

/-! ### Calls are rounds -/

/-- Messages are processed one after another, from one interpreter to the next. -/
inductive Handles : Interpreter C → Interpreter C → Prop
  | refl (i : Interpreter C) : Handles i i
  | cons {i j : Interpreter C} {e : Envelope} {rest : List Envelope} (hs : i.status = .running)
      (hqueue : i.queue = e :: rest) (h : Handles (i.handle e rest).1 j) : Handles i j

theorem Handles.trans {k : Interpreter C} (hij : Handles i j) (hjk : Handles j k) :
    Handles i k := by
  induction hij with
  | refl => exact hjk
  | cons hs hqueue _ ih => exact .cons hs hqueue (ih hjk)

theorem handle_dropped (i : Interpreter C) (hs : i.status = .running) (hd : i.dropped = false)
    (e : Envelope) (rest : List Envelope) : (i.handle e rest).1.dropped = false :=
  (handle_moves hs hd e rest).dropped.trans hd

theorem Handles.rounds (h : Handles i j) (hd : i.dropped = false) : Rounds i j := by
  induction h with
  | refl => exact .refl
  | cons hs hqueue _ ih =>
    exact .head (.handle hs hd hqueue) (ih (handle_dropped _ hs hd _ _))

theorem drain_handles (fuel : Nat) (i : Interpreter C) : Handles i (i.drain fuel).1 := by
  induction fuel generalizing i with
  | zero => exact .refl i
  | succ fuel ih =>
    rcases i.idle_or_busy with hidle | ⟨e, rest, hs, hqueue⟩
    · rw [drain_idle hidle]
      exact .refl i
    · rw [drain_succ hs hqueue]
      split
      · exact .cons hs hqueue (.refl _)
      · exact .cons hs hqueue (ih _)

/-- What a call does before it goes on to process messages. -/
def enact (i : Interpreter C) : Call C → Interpreter C
  | .start _ =>
    if i.status = .notStarted ∧ (i.tree.hasDelays = true → i.hasClock = true) then i.launch.1 else i
  | .send _ event =>
    if i.status = .stopped then i.note (.refused event.name) else i.enqueue (.event event none)
  | .drain _ | .next _ => i
  | c => i.carryOut c

theorem enact_start (i : Interpreter C) (fuel : Nat) (hs : i.status = .notStarted)
    (hclock : i.Clocked) : i.enact (.start fuel) = i.launch.1 := by
  have h : i.status = .notStarted ∧ (i.tree.hasDelays = true → i.hasClock = true) := ⟨hs, hclock⟩
  simp only [enact, if_pos h]

theorem enact_start_of_not (i : Interpreter C) (fuel : Nat)
    (h : ¬ (i.status = .notStarted ∧ i.Clocked)) :
    i.enact (.start fuel) = i ∧ (i.start fuel).1 = i := by
  have h' : ¬ (i.status = .notStarted ∧ (i.tree.hasDelays = true → i.hasClock = true)) := h
  refine ⟨by simp only [enact, if_neg h'], ?_⟩
  cases hs : i.status with
  | running => simp only [start, hs]
  | stopped => simp only [start, hs]
  | notStarted => rw [start_refused hs fun hclock => h ⟨hs, hclock⟩]

/-- What is posted reaches the queue. -/
theorem post_of_kept (hd : i.dropped = false) (e : Envelope) : i.post e = i.enqueue e := by
  simp [post, isOpen, hd]

theorem enact_round (hd : i.dropped = false) (c : Call C) :
    i.enact c = i ∨ Round i (i.enact c) := by
  have hpost (e : Envelope) : Round i (i.post e) := post_of_kept hd e ▸ .enqueue hd e
  cases c with
  | start fuel =>
    by_cases h : i.status = .notStarted ∧ i.Clocked
    · right
      rw [enact_start i fuel h.1 h.2]
      exact .launch h.1 hd h.2
    · exact .inl (enact_start_of_not i fuel h).1
  | send fuel event =>
    right
    simp only [enact]
    split
    case isTrue hs => exact .refuse hs _
    case isFalse => exact .enqueue hd _
  | drain fuel => exact .inl rfl
  | next fuel => exact .inl rfl
  | stop => exact .inr (.stop hd)
  | drop => exact .inr (.drop hd)
  | subscribe observer => exact .inr (.attend _ _ _)
  | unsubscribe subscription => exact .inr (.attend _ _ _)
  | post event => exact .inr (hpost _)
  | requestStop => exact .inr (hpost _)
  | emit origin event =>
    simp only [enact, carryOut, emit]
    split
    case isTrue => exact .inr (.enqueue hd _)
    case isFalse => exact .inl rfl
  | elapse timer => exact .inr (hpost _)
  | tick now => exact .inr (.attend _ _ _)
  | provideClock present =>
    simp only [enact, carryOut]
    split
    case isTrue hs => exact .inr (.clock (by simpa using hs) present)
    case isFalse => exact .inl rfl

/-- After what a call does at first, it only processes messages. -/
theorem carryOut_handles (i : Interpreter C) (c : Call C) :
    Handles (i.enact c) (i.carryOut c) := by
  cases c with
  | start fuel =>
    by_cases h : i.status = .notStarted ∧ i.Clocked
    · rw [enact_start i fuel h.1 h.2, carryOut, start_eq fuel h.1 h.2]
      split
      · exact .refl _
      · exact drain_handles fuel _
    · obtain ⟨henact, hstart⟩ := enact_start_of_not i fuel h
      rw [henact, carryOut, hstart]
      exact .refl i
  | send fuel event =>
    cases hs : i.status with
    | stopped =>
      simp only [enact, carryOut, send, hs, if_true]
      exact .refl _
    | notStarted =>
      simp only [enact, carryOut, send, hs, if_neg (by simp : ¬ Status.notStarted = .stopped)]
      exact drain_handles fuel _
    | running =>
      simp only [enact, carryOut, send, hs, if_neg (by simp : ¬ Status.running = .stopped)]
      exact drain_handles fuel _
  | drain fuel => exact drain_handles fuel i
  | next fuel =>
    simp only [enact, carryOut, next]
    split
    · exact .refl i
    · exact .refl i
    · split
      · exact .refl i
      · exact drain_handles fuel i
  | _ => exact .refl _

theorem enact_dropped (hd : i.dropped = false) {c : Call C} (hc : c ≠ .drop) :
    (i.enact c).dropped = false := by
  have hsame : (i.enact c).dropped = i.dropped := by
    cases c with
    | start fuel =>
      by_cases h : i.status = .notStarted ∧ i.Clocked
      · rw [enact_start i fuel h.1 h.2]
        exact (launch_moves h.1 hd h.2).dropped
      · rw [(enact_start_of_not i fuel h).1]
    | send fuel event =>
      simp only [enact]
      split <;> rfl
    | drain fuel => rfl
    | next fuel => rfl
    | drop => exact absurd rfl hc
    | _ => exact (carryOut_moves (by simp) hd).dropped
  exact hsame.trans hd

theorem perform_of_kept (hd : i.dropped = false) (c : Call C) : i.perform c = i.carryOut c := by
  simp [perform, hd]

/-- Nothing but time reaches an interpreter that was dropped. -/
theorem perform_of_dropped (hd : i.dropped = true) (c : Call C) :
    i.perform c = i ∨ ∃ now, i.perform c = { i with now } := by
  have hpost (e : Envelope) : i.post e = i := by simp [post, isOpen, hd]
  have hemit (origin : InvocationId) (event : Event) : i.emit origin event = i := by
    simp [emit, isAlive, hd]
  cases c with
  | post event => exact .inl (by simpa [perform, Call.isRemote, carryOut] using hpost _)
  | requestStop => exact .inl (by simpa [perform, Call.isRemote, carryOut] using hpost _)
  | emit origin event =>
    exact .inl (by simpa [perform, Call.isRemote, carryOut] using hemit origin event)
  | elapse timer => exact .inl (by simpa [perform, Call.isRemote, carryOut] using hpost _)
  | tick now => exact .inr ⟨now, by simp [perform, Call.isRemote, carryOut]⟩
  | _ => exact .inl (by simp [perform, Call.isRemote, hd])

/-- **A call is a number of rounds.** -/
theorem perform_rounds (i : Interpreter C) (c : Call C) : Rounds i (i.perform c) := by
  cases hd : i.dropped with
  | true =>
    rcases perform_of_dropped hd c with hsame | ⟨now, htime⟩
    · rw [hsame]
    · exact htime ▸ .single (.attend _ _ _)
  | false =>
    have henact : Rounds i (i.enact c) := by
      rcases enact_round hd c with hsame | hround
      · rw [hsame]
      · exact .single hround
    rw [perform_of_kept hd]
    by_cases hc : c = .drop
    · exact hc ▸ .single (.drop hd)
    · exact henact.trans ((carryOut_handles i c).rounds (enact_dropped hd hc))

/-! ### Runs -/

/-- The interpreter after calls, one after another. -/
def after (i : Interpreter C) (calls : List (Call C)) : Interpreter C := calls.foldl perform i

theorem after_rounds (i : Interpreter C) (calls : List (Call C)) : Rounds i (i.after calls) := by
  induction calls generalizing i with
  | nil => exact .refl
  | cons c rest ih => exact (perform_rounds i c).trans (ih _)

theorem reachable_after {m : Machine C} (hi : Reachable m i) (calls : List (Call C)) :
    Reachable m (i.after calls) := by
  induction calls generalizing i with
  | nil => exact hi
  | cons c rest ih => exact ih (hi.call c)

/-- **What no round breaks holds in every reachable state.** -/
theorem Reachable.invariant_of_rounds {d : Definition} {host : Implementations C} {m : Machine C}
    (hm : Machine.build d host = .ok m) {P : Interpreter C → Prop}
    (hfresh : ∀ context limit, P ((Interpreter.new m context).withHistoryLimit limit))
    (hround : ∀ i j, i.Coherent → P i → Round i j → P j) (hi : Reachable m i) : P i := by
  induction hi with
  | fresh context limit => exact hfresh context limit
  | call h c ih => exact Rounds.preserve hround (perform_rounds _ c) (h.coherent hm) ih

end Interpreter

end Statechart
