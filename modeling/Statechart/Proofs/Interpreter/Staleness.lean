import Statechart.Proofs.Interpreter.Nesting
import Statechart.Proofs.Interpreter.Rounds

/-!
# Stale messages

A message that comes too late has no effect (`Coherent.ignores_of_stale`), and too late it stays:
numbers of invocations and timers are only given out anew (`Since`). So what is acted upon belongs
to an entry of its state that has lasted from the start on (`Reachable.stale_for_good`), no matter
how often the same service or the same delay was started for the state before.
-/

namespace Statechart

/-- The entry is about a call of host code: an action, an observer, a service, or what stops it. -/
def Entry.isHostCode {C : Type} : Entry C → Bool
  | ran .. | observed .. | serviceCalled .. | tornDown .. | taskAborted .. => true
  | _ => false

theorem Entry.isHostCode_of_isDismissal {C : Type} {n : Entry C}
    (h : n.isDismissal = true) : n.isHostCode = false := by
  cases n with
  | stale => rfl
  | unhandled => rfl
  | timerWasCancelled => rfl
  | _ => exact nomatch h

/-! ### New numbers -/

section

variable {α : Type} {number : α → Nat} {next next' : Nat} {a b c : List α}

/-- What is in `b` but not in `a` has a number from `next` on. -/
def NewFrom (number : α → Nat) (next : Nat) (a b : List α) : Prop :=
  ∀ x ∈ b, x ∈ a ∨ next ≤ number x

theorem NewFrom.of_subset (h : b ⊆ a) : NewFrom number next a b := fun _ hx => .inl (h hx)

theorem NewFrom.trans (hab : NewFrom number next a b) (hle : next ≤ next')
    (hbc : NewFrom number next' b c) : NewFrom number next a c := by
  intro x hx
  rcases hbc x hx with hx | hx
  · exact hab x hx
  · exact .inr (Nat.le_trans hle hx)

theorem NewFrom.append (hb : b ⊆ a) (hc : ∀ x ∈ c, next ≤ number x) :
    NewFrom number next a (b ++ c) := by
  intro x hx
  rcases List.mem_append.mp hx with hx | hx
  · exact .inl (hb hx)
  · exact .inr (hc x hx)

theorem NewFrom.mem (h : NewFrom number next a b) {x : α} (hx : x ∈ b) (hlt : number x < next) :
    x ∈ a :=
  (h x hx).resolve_right (Nat.not_le.mpr hlt)

/-- What belongs to a state that is left is gone afterwards. -/
theorem not_mem_of_exit {state : α → StateId} {exit : List StateId} {x : α}
    (hexit : state x ∈ exit) (hlt : number x < next) (hb : ∀ y ∈ b, next ≤ number y) :
    x ∉ a.filter (fun y => !exit.contains (state y)) ++ b := by
  intro hx
  rcases List.mem_append.mp hx with hx | hx
  · have hnot := (List.mem_filter.mp hx).2
    simp [hexit] at hnot
  · exact Nat.not_le.mpr hlt (hb x hx)

end

namespace Interpreter

variable {C : Type} {i j k : Interpreter C}

/-! ### Messages without effect -/

/-- The calls of host code so far. -/
def hostCalls (i : Interpreter C) : List (Entry C) := i.journal.toList.filter Entry.isHostCode

/-- Whether a timer is armed. -/
def isArmed (i : Interpreter C) (id : TimerId) : Bool := i.timers.any fun t => t.id == id

/-- To process the message has no effect: it is taken out of the queue and noted, and that is all.
No host code is called. -/
structure Ignores (i : Interpreter C) (e : Envelope) (rest : List Envelope) : Prop where
  fault : (i.handle e rest).2 = none
  still : (i.handle e rest).1.still = i.still
  queue : (i.handle e rest).1.queue = rest
  hostCalls : (i.handle e rest).1.hostCalls = i.hostCalls

theorem hostCalls_note (i : Interpreter C) {e : Entry C} (he : e.isHostCode = false) :
    (i.note e).hostCalls = i.hostCalls := by
  simp [hostCalls, note, he]

/-- A message that leads to no transition has no effect. -/
theorem Coherent.ignores_of_none (hi : i.Coherent) {e : Envelope} (he : e ≠ .stop)
    (hnone : i.choice? e = none) (rest : List Envelope) : i.Ignores e rest := by
  obtain ⟨n, hn, hhandle⟩ := hi.handle_of_none he hnone rest
  have hcalls : ((i.pull e rest).note n).hostCalls = i.hostCalls :=
    (hostCalls_note _ (Entry.isHostCode_of_isDismissal hn)).trans (hostCalls_note i rfl)
  constructor
  all_goals rw [hhandle]
  case still => rfl
  case queue => rfl
  case hostCalls => exact hcalls

/-- **A stale message has no effect.** -/
theorem Coherent.ignores_of_stale (hi : i.Coherent) {e : Envelope} (h : i.Stale e)
    (rest : List Envelope) : i.Ignores e rest := by
  have hnone : i.choice? e = none := by
    rw [choice?, hi.impulse?_eq_none_iff.mpr (.inr h), Option.bind_none]
  refine hi.ignores_of_none ?_ hnone rest
  rintro rfl
  exact h

/-! ### What a message makes of the holdings -/

/-- The step that processing a message amounts to, if it amounts to one. -/
def stepOf? (i : Interpreter C) : Envelope → Option Step
  | .stop => some (i.tree.halt i.configuration)
  | e => (i.choice? e).map fun c => i.tree.plan i.configuration c.1

/-- What the interpreter `j` holds comes from `i` by leaving states and entering others. -/
structure Shifted (i j : Interpreter C) (exit entry : List StateId) : Prop where
  invocations : j.invocations = i.invocations.filter (fun v => !exit.contains v.state) ++
    i.machine.invocationsFrom i.emitters.size entry
  timers : j.timers = i.timers.filter (fun t => !exit.contains t.state) ++
    i.tree.timersFrom i.nextTimer entry

theorem Coherent.shifted (hi : i.Coherent) (hclock : i.Clocked) (exit entry : List StateId)
    (c : Configuration) (status : Status) (h : Alike (i.shift exit entry c status) j) :
    Shifted i j exit entry := by
  obtain ⟨hv, -, ht, -⟩ := hi.numbered.shift_holdings hclock exit entry c status
  exact ⟨h.invocations.trans hv, h.timers.trans ht⟩

/-- What a message that is no request to stop comes to. -/
theorem stepOf?_eq {e : Envelope} (he : e ≠ .stop) :
    i.stepOf? e = (i.choice? e).map fun c => i.tree.plan i.configuration c.1 := by
  cases e with
  | stop => exact absurd rfl he
  | _ => rfl

/-- **A message that amounts to a step is a shift** along it, as far as the holdings go. -/
theorem Coherent.handle_alike (hi : i.Coherent) (hs : i.status = .running) {e : Envelope}
    {step : Step} (hstep : i.stepOf? e = some step) (rest : List Envelope) :
    ∃ c status, Alike ((i.draw e rest).shift step.exit step.entry c status)
      (i.handle e rest).1 := by
  by_cases he : e = .stop
  · subst he
    obtain rfl := Option.some.inj hstep
    have hrunning : (i.draw .stop rest).status = .running := hs
    rw [handle_stop, stop_eq hrunning]
    exact ⟨_, _, (alike_discard _).trans (alike_react _ rfl _ _ _)⟩
  · rw [stepOf?_eq he] at hstep
    obtain ⟨⟨tr, event⟩, hchoice, rfl⟩ := Option.map_eq_some_iff.mp hstep
    rw [(hi.handle_of_some hchoice rest).2, take_eq]
    exact ⟨_, _, alike_react _ rfl _ _ _⟩

theorem Coherent.handle_shifted (hi : i.Coherent) (hs : i.status = .running) {e : Envelope}
    {step : Step} (hstep : i.stepOf? e = some step) (rest : List Envelope) :
    Shifted (i.draw e rest) (i.handle e rest).1 step.exit step.entry := by
  have hdrawn := hi.draw e rest
  obtain ⟨c, status, halike⟩ := hi.handle_alike hs hstep rest
  exact hdrawn.shifted (hdrawn.clocked hs) _ _ _ _ halike

theorem Coherent.ignores_of_stepOf? (hi : i.Coherent) {e : Envelope} (hstep : i.stepOf? e = none)
    (rest : List Envelope) : i.Ignores e rest := by
  have he : e ≠ .stop := by
    rintro rfl
    exact nomatch hstep
  rw [stepOf?_eq he, Option.map_eq_none_iff] at hstep
  exact hi.ignores_of_none he hstep rest

theorem Coherent.launch_shifted (hi : i.Coherent) (hclock : i.Clocked) :
    Shifted i i.launch.1 [] i.tree.opening.entry := by
  rw [launch]
  exact hi.shifted hclock _ _ _ _ (alike_react _ rfl _ _ _)

/-! ### Numbers are never given out again -/

theorem le_number_of_mem {m : Machine C} {next : Nat} {states : List StateId} {v : Invocation}
    (h : v ∈ m.invocationsFrom next states) : next ≤ v.origin.number := by
  have hmem : v.origin.number ∈ (m.invocationsFrom next states).map fun v => v.origin.number :=
    List.mem_map.mpr ⟨v, h, rfl⟩
  rw [number_invocationsFrom] at hmem
  exact (List.mem_range'_1.mp hmem).1

theorem le_number_of_mem_timers {t : StateTree} {next : Nat} {states : List StateId} {u : Timer}
    (h : u ∈ t.timersFrom next states) : next ≤ u.id.number := by
  have hmem : u.id.number ∈ (t.timersFrom next states).map fun u => u.id.number :=
    List.mem_map.mpr ⟨u, h, rfl⟩
  rw [number_timersFrom] at hmem
  exact (List.mem_range'_1.mp hmem).1

/-- What is held later on was held before, or has a number that had not been given out. -/
structure Since (i j : Interpreter C) : Prop where
  emitters : i.emitters.size ≤ j.emitters.size
  nextTimer : i.nextTimer ≤ j.nextTimer
  invocations : NewFrom (fun v => v.origin.number) i.emitters.size i.invocations j.invocations
  timers : NewFrom (fun t => t.id.number) i.nextTimer i.timers j.timers

theorem since_of_subset (hemitters : j.emitters.size = i.emitters.size)
    (hnext : j.nextTimer = i.nextTimer) (hv : j.invocations ⊆ i.invocations)
    (ht : j.timers ⊆ i.timers) : Since i j :=
  ⟨Nat.le_of_eq hemitters.symm, Nat.le_of_eq hnext.symm, .of_subset hv, .of_subset ht⟩

theorem Since.refl (i : Interpreter C) : Since i i :=
  since_of_subset rfl rfl (List.Subset.refl _) (List.Subset.refl _)

theorem Since.trans (hij : Since i j) (hjk : Since j k) : Since i k where
  emitters := Nat.le_trans hij.emitters hjk.emitters
  nextTimer := Nat.le_trans hij.nextTimer hjk.nextTimer
  invocations := hij.invocations.trans hij.emitters hjk.invocations
  timers := hij.timers.trans hij.nextTimer hjk.timers

theorem Coherent.since_shift (hi : i.Coherent) (hclock : i.Clocked) (exit entry : List StateId)
    (c : Configuration) (status : Status) : Since i (i.shift exit entry c status) := by
  obtain ⟨hv, hsize, ht, hnext⟩ := hi.numbered.shift_holdings hclock exit entry c status
  refine ⟨by omega, by omega, ?_, ?_⟩
  · rw [hv]
    exact .append (List.filter_subset_self _) fun _ => le_number_of_mem
  · rw [ht]
    exact .append (List.filter_subset_self _) fun _ => le_number_of_mem_timers

theorem since_expire (i : Interpreter C) (id : TimerId) : Since i (i.expire id) :=
  since_of_subset rfl rfl (List.Subset.refl _) (List.filter_subset_self _)

theorem Coherent.since_move (hi : i.Coherent) (h : Move i j) : Since i j := by
  cases h with
  | aside h =>
    exact since_of_subset (congrArg Array.size h.emitters) h.nextTimer (by rw [h.invocations]; simp)
      (by rw [h.timers]; simp)
  | launch hs hd hclock => exact hi.since_shift hclock _ _ _ _
  | take hs hd hactive htr => exact hi.since_shift (hi.clocked hs) _ _ _ _
  | ring hs hd ht hactive hdelay =>
    exact (since_expire i _).trans ((hi.expire _).since_shift ((hi.expire _).clocked hs) _ _ _ _)
  | lapse hs hd ht hvoid => exact since_expire i _
  | halt hs hd => exact hi.since_shift (hi.clocked hs) _ _ _ _
  | _ => exact since_of_subset rfl rfl (List.Subset.refl _) (List.Subset.refl _)

theorem Coherent.since_moves (hi : i.Coherent) (h : Moves i j) : Since i j := by
  have hboth : j.Coherent ∧ Since i j := by
    induction h with
    | refl => exact ⟨hi, .refl i⟩
    | tail _ hmove ih => exact ⟨ih.1.move hmove, ih.2.trans (ih.1.since_move hmove)⟩
  exact hboth.2

theorem Coherent.since_round (hi : i.Coherent) (h : Round i j) : Since i j := by
  cases h with
  | launch hs hd hclock => exact hi.since_moves (launch_moves hs hd hclock)
  | handle hs hd hqueue => exact hi.since_moves (handle_moves hs hd _ _)
  | stop hd => exact hi.since_moves (stop_moves hd)
  | drop hd =>
    obtain ⟨hv, hsize, ht, hnext⟩ := drop_holdings hd
    exact since_of_subset hsize hnext (by simp [hv]) (by simp [ht])
  | _ => exact since_of_subset rfl rfl (List.Subset.refl _) (List.Subset.refl _)

theorem Coherent.since (hi : i.Coherent) (h : Rounds i j) : Since i j := by
  induction h with
  | refl => exact .refl i
  | tail hrounds hround ih =>
    exact ih.trans ((Rounds.coherent hrounds hi).since_round hround)

/-! ### What lasts -/

theorem isLive_iff {origin : InvocationId} :
    i.isLive origin = true ↔ ∃ v ∈ i.invocations, v.origin = origin := by
  simp [isLive]

theorem isArmed_iff {id : TimerId} : i.isArmed id = true ↔ ∃ t ∈ i.timers, t.id = id := by
  simp [isArmed]

theorem Numbered.invocation_lt (hi : i.Numbered) {v : Invocation} (hv : v ∈ i.invocations) :
    v.origin.number < i.emitters.size :=
  hi.invocations.lt _ (List.mem_map.mpr ⟨v, hv, rfl⟩)

theorem Numbered.timer_lt (hi : i.Numbered) {t : Timer} (ht : t ∈ i.timers) :
    t.id.number < i.nextTimer :=
  hi.timers.lt _ (List.mem_map.mpr ⟨t, ht, rfl⟩)

/-- An invocation that runs at two times is the same one, and runs all the time between. -/
theorem Coherent.invocation_mem (hi : i.Coherent) {v : Invocation} (hv : v ∈ i.invocations)
    (hij : Since i j) (hjk : Since j k) (hk : k.isLive v.origin = true) : v ∈ j.invocations := by
  obtain ⟨w, hw, horigin⟩ := isLive_iff.mp hk
  -- What runs in the end has a number that had been given out by `i`, so it did not begin later.
  have hlt : w.origin.number < i.emitters.size := horigin ▸ hi.numbered.invocation_lt hv
  have hwj := hjk.invocations.mem hw (Nat.lt_of_lt_of_le hlt hij.emitters)
  have hwi := hij.invocations.mem hwj hlt
  rwa [← hi.numbered.invocation_unique hwi hv horigin]

/-- A timer that is armed at two times is the same one, and is armed all the time between. -/
theorem Coherent.timer_mem (hi : i.Coherent) {t : Timer} (ht : t ∈ i.timers) (hij : Since i j)
    (hjk : Since j k) (hk : k.isArmed t.id = true) : t ∈ j.timers := by
  obtain ⟨u, hu, hid⟩ := isArmed_iff.mp hk
  have hlt : u.id.number < i.nextTimer := hid ▸ hi.numbered.timer_lt ht
  have huj := hjk.timers.mem hu (Nat.lt_of_lt_of_le hlt hij.nextTimer)
  have hui := hij.timers.mem huj hlt
  rwa [← hi.numbered.timer_unique hui ht hid]

/-- From `i` to `k` the state is active all the time, and no message makes the machine leave it,
be it to enter it again. -/
def Stays (s : StateId) (i k : Interpreter C) : Prop :=
  ∀ j, Rounds i j → Rounds j k → s ∈ j.configuration.states ∧
    ∀ e rest, j.status = .running → j.queue = e :: rest → Rounds (j.handle e rest).1 k →
      ∀ step, j.stepOf? e = some step → s ∉ step.exit

theorem Coherent.not_dropped_of_invocation (hi : i.Coherent) {v : Invocation}
    (hv : v ∈ i.invocations) : i.dropped = false := by
  by_contra hd
  rw [(hi.dropped (by simpa using hd)).1] at hv
  exact nomatch hv

theorem Coherent.running_of_invocation (hi : i.Coherent) {v : Invocation}
    (hv : v ∈ i.invocations) : i.status = .running := by
  by_contra hover
  rw [(hi.nothing_held hover).2.1] at hv
  exact nomatch hv

theorem Coherent.not_dropped_of_timer (hi : i.Coherent) {t : Timer} (ht : t ∈ i.timers) :
    i.dropped = false := by
  by_contra hd
  rw [(hi.dropped (by simpa using hd)).2] at ht
  exact nomatch ht

theorem Coherent.state_mem_of_invocation (hi : i.Coherent) {v : Invocation}
    (hv : v ∈ i.invocations) : v.state ∈ i.configuration.states := by
  have hkey : v.key ∈ i.tree.invokeKeys i.configuration.states :=
    hi.invocations (hi.not_dropped_of_invocation hv) ▸ List.mem_map_of_mem hv
  exact StateTree.state_mem_of_invokeKeys hkey

/-- **An invocation that still runs belongs to an entry of its state that lasts.** -/
theorem Coherent.stays_of_live (hi : i.Coherent) {v : Invocation} (hv : v ∈ i.invocations)
    (hk : k.isLive v.origin = true) : Stays v.state i k := by
  intro j hij hjk
  have hj := Rounds.coherent hij hi
  have hvj := hi.invocation_mem hv (hi.since hij) (hj.since hjk) hk
  refine ⟨hj.state_mem_of_invocation hvj, ?_⟩
  intro e rest hs hqueue hlater step hstep hexit
  have hround : Round j (j.handle e rest).1 :=
    .handle hs (hj.not_dropped_of_invocation hvj) hqueue
  have hmem := hj.invocation_mem hvj (hj.since_round hround)
    ((hround.coherent hj).since hlater) hk
  -- If the state were left, the invocation would be gone, and others get other numbers.
  rw [(hj.handle_shifted hs hstep rest).invocations] at hmem
  exact not_mem_of_exit hexit (hj.numbered.invocation_lt hvj) (fun _ => le_number_of_mem) hmem

/-- **A timer that is still armed belongs to an entry of its state that lasts.** -/
theorem Coherent.stays_of_armed (hi : i.Coherent) {t : Timer} (ht : t ∈ i.timers)
    (hk : k.isArmed t.id = true) : Stays t.state i k := by
  intro j hij hjk
  have hj := Rounds.coherent hij hi
  have htj := hi.timer_mem ht (hi.since hij) (hj.since hjk) hk
  refine ⟨hj.state_mem htj, ?_⟩
  intro e rest hs hqueue hlater step hstep hexit
  have hround : Round j (j.handle e rest).1 := .handle hs (hj.not_dropped_of_timer htj) hqueue
  have hmem := hj.timer_mem htj (hj.since_round hround) ((hround.coherent hj).since hlater) hk
  rw [(hj.handle_shifted hs hstep rest).timers] at hmem
  exact not_mem_of_exit hexit (hj.numbered.timer_lt htj) (fun _ => le_number_of_mem_timers) hmem

/-! ### What begins -/

/-- The state is entered in the round from `i` to `j`, because of a message or at the start. -/
def Enters (s : StateId) (i j : Interpreter C) : Prop :=
  (∃ e rest step, i.status = .running ∧ i.queue = e :: rest ∧ j = (i.handle e rest).1 ∧
    i.stepOf? e = some step ∧ s ∈ step.entry) ∨
  (i.status = .notStarted ∧ j = i.launch.1 ∧ s ∈ i.tree.opening.entry)

theorem Shifted.new {exit entry : List StateId} (h : Shifted i j exit entry) :
    (∀ v ∈ j.invocations, v ∈ i.invocations ∨ v.state ∈ entry) ∧
    (∀ t ∈ j.timers, t ∈ i.timers ∨ t.state ∈ entry) := by
  constructor
  · intro v hv
    rw [h.invocations, List.mem_append] at hv
    exact hv.imp List.mem_of_mem_filter state_mem_of_invocationsFrom
  · intro t ht
    rw [h.timers, List.mem_append] at ht
    refine ht.imp List.mem_of_mem_filter fun ht => ?_
    have hkey : t.key ∈ i.tree.delayKeys entry := by
      rw [← key_timersFrom]
      exact List.mem_map_of_mem ht
    exact (StateTree.mem_delayKeys.mp hkey).1

/-- **Invocations and timers begin when their states are entered.** -/
theorem Coherent.new_of_round (hi : i.Coherent) (h : Round i j) :
    (∀ v ∈ j.invocations, v ∈ i.invocations ∨ Enters v.state i j) ∧
    (∀ t ∈ j.timers, t ∈ i.timers ∨ Enters t.state i j) := by
  have hj := h.coherent hi
  cases h with
  | launch hs hd hclock =>
    obtain ⟨hv, ht⟩ := (hi.launch_shifted hclock).new
    exact ⟨fun v hmem => (hv v hmem).imp_right fun hs' => .inr ⟨hs, rfl, hs'⟩,
      fun t hmem => (ht t hmem).imp_right fun hs' => .inr ⟨hs, rfl, hs'⟩⟩
  | @handle hs hd e rest hqueue =>
    cases hstep : i.stepOf? e with
    | none =>
      have hstill := (hi.ignores_of_stepOf? hstep rest).still
      simp only [still, mk.injEq] at hstill
      simp only [hstill]
      exact ⟨fun _ => .inl, fun _ => .inl⟩
    | some step =>
      obtain ⟨hv, ht⟩ := (hi.handle_shifted hs hstep rest).new
      have henters {s : StateId} (hmem : s ∈ step.entry) : Enters s i (i.handle e rest).1 :=
        .inl ⟨e, rest, step, hs, hqueue, rfl, hstep, hmem⟩
      exact ⟨fun v hmem => (hv v hmem).imp_right henters,
        fun t hmem => (ht t hmem).imp List.mem_of_mem_filter henters⟩
  | stop hd =>
    have hstopped := i.stop_status
    obtain ⟨-, hv, ht⟩ := hj.nothing_held (by simp [hstopped])
    simp [hv, ht]
  | drop hd =>
    obtain ⟨hv, -, ht, -⟩ := drop_holdings hd
    simp [hv, ht]
  | _ => exact ⟨fun _ => .inl, fun _ => .inl⟩

/-! ### The whole run -/

/-- **What is given up is never held again.** -/
theorem Coherent.gone_for_good (hi : i.Coherent) (hij : Rounds i j) (hjk : Rounds j k) :
    (∀ origin, i.isLive origin = true → j.isLive origin = false → k.isLive origin = false) ∧
    (∀ id, i.isArmed id = true → j.isArmed id = false → k.isArmed id = false) := by
  have hj := Rounds.coherent hij hi
  constructor
  · intro origin hlive hgone
    obtain ⟨v, hv, rfl⟩ := isLive_iff.mp hlive
    by_contra hk
    have hvj := hi.invocation_mem hv (hi.since hij) (hj.since hjk) (by simpa using hk)
    exact absurd (isLive_iff.mpr ⟨v, hvj, rfl⟩) (by simp [hgone])
  · intro id harmed hgone
    obtain ⟨t, ht, rfl⟩ := isArmed_iff.mp harmed
    by_contra hk
    have htj := hi.timer_mem ht (hi.since hij) (hj.since hjk) (by simpa using hk)
    exact absurd (isArmed_iff.mpr ⟨t, htj, rfl⟩) (by simp [hgone])

/-- **What is acted upon belongs to an entry of its state that lasts.** -/
theorem Coherent.stays_of_acted (hi : i.Coherent) (hik : Rounds i k) :
    (∀ v ∈ i.invocations, ∀ event rest,
      ¬ k.Ignores (.event event (some v.origin)) rest → Stays v.state i k) ∧
    (∀ t ∈ i.timers, ∀ rest, ¬ k.Ignores (.timer t.id) rest → Stays t.state i k) := by
  have hk := Rounds.coherent hik hi
  constructor
  · intro v hv event rest hacts
    apply hi.stays_of_live hv
    by_contra hdead
    have hstale : k.Stale (.event event (some v.origin)) := by simpa [Stale] using hdead
    exact hacts (hk.ignores_of_stale hstale rest)
  · intro t ht rest hacts
    apply hi.stays_of_armed ht
    by_contra hgone
    have hstale : k.Stale (.timer t.id) := by
      intro u hu hid
      exact hgone (isArmed_iff.mpr ⟨u, hu, hid⟩)
    exact hacts (hk.ignores_of_stale hstale rest)

/-- **Too late is too late for good.** A stale message has no effect. A number of an invocation or
a timer that was given up is never live or armed again. Invocations and timers begin when their
states are entered, and where a message of one of them is acted upon, its state has not been left
since, not even to be entered again. -/
theorem Reachable.stale_for_good {d : Definition} {host : Implementations C} {m : Machine C}
    (hm : Machine.build d host = .ok m) (hi : Reachable m i) :
    (∀ e rest, i.Stale e → i.Ignores e rest) ∧
    (∀ c, Rounds i (i.perform c)) ∧
    (∀ j k, Rounds i j → Rounds j k →
      (∀ origin, i.isLive origin = true → j.isLive origin = false → k.isLive origin = false) ∧
      (∀ id, i.isArmed id = true → j.isArmed id = false → k.isArmed id = false)) ∧
    (∀ j, Round i j →
      (∀ v ∈ j.invocations, v ∈ i.invocations ∨ Enters v.state i j) ∧
      (∀ t ∈ j.timers, t ∈ i.timers ∨ Enters t.state i j)) ∧
    (∀ k, Rounds i k →
      (∀ v ∈ i.invocations, ∀ event rest,
        ¬ k.Ignores (.event event (some v.origin)) rest → Stays v.state i k) ∧
      (∀ t ∈ i.timers, ∀ rest, ¬ k.Ignores (.timer t.id) rest → Stays t.state i k)) := by
  have hcoherent := hi.coherent hm
  exact ⟨fun _ rest h => hcoherent.ignores_of_stale h rest, perform_rounds i,
    fun _ _ => hcoherent.gone_for_good, fun _ => hcoherent.new_of_round,
    fun _ => hcoherent.stays_of_acted⟩

end Interpreter

/-- A lamp that was switched off and on again hums anew, under another number. -/
theorem lampOn_stale_for_good :
    let off := lampOn.perform (.send 1 (.named "press"))
    let again := off.perform (.send 1 (.named "press"))
    lampOn.isLive ⟨0⟩ = true ∧ off.isLive ⟨0⟩ = false ∧ again.isLive ⟨0⟩ = false := by
  intro off again
  have hlive : lampOn.isLive ⟨0⟩ = true := by decide +kernel
  have hgone : off.isLive ⟨0⟩ = false := by decide +kernel
  obtain ⟨-, hcalls, hgood, -⟩ := Interpreter.Reachable.stale_for_good build_lamp reachable_lampOn
  have hlater := Interpreter.perform_rounds off (.send 1 (.named "press"))
  exact ⟨hlive, hgone, (hgood off again (hcalls _) hlater).1 ⟨0⟩ hlive hgone⟩

end Statechart
