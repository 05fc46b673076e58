import Statechart.Proofs.Interpreter.Lifecycle
import Statechart.Proofs.Interpreter.Timings

/-!
# Armed timers

While a machine runs, a timer is armed for each delay of each active state unless it has gone off
since the state was entered. When a timer goes off its transition is taken, and that leaves the
state; only a transition without a target, or one of the root, does not, and so only its timer can
be missing (`Reachable.timed`).
-/

namespace Statechart

/-! ### Delays of active states -/

namespace StateTree

variable {t : StateTree} {states : List StateId}

/-- The delayed transition at an index of a state does not leave the state. -/
def Exempt (t : StateTree) (s : StateId) (k : Nat) : Prop :=
  ∀ delay, (t.node s).after[k]? = some delay → delay.transition.target = none ∨ s = t.root

/-- No state declares two delays of one length. -/
theorem WellFormed.delays_pairwise (ht : t.WellFormed) (hnodup : states.Nodup) :
    (t.delays states).Pairwise fun a b => ¬ (b.1 = a.1 ∧ b.2.1.millis = a.2.1.millis) := by
  refine List.pairwise_flatMap.mpr ⟨?_, hnodup.imp ?_⟩
  · intro s _
    have hafter : (t.node s).after.zipIdx.Pairwise fun a b => a.1.millis < b.1.millis := by
      have hpairwise := ht.after s
      rwa [← List.zipIdx_map_fst 0 (t.node s).after, List.pairwise_map] at hpairwise
    apply List.pairwise_map.mpr
    apply hafter.imp
    rintro a b hlt ⟨-, heq⟩
    exact Nat.ne_of_gt hlt heq
  · intro s s' hne a ha b hb h
    obtain ⟨_, _, rfl⟩ := List.mem_map.mp ha
    obtain ⟨_, _, rfl⟩ := List.mem_map.mp hb
    exact hne h.1.symm

theorem WellFormed.timersFrom_pairwise (ht : t.WellFormed) (hnodup : states.Nodup) (next : Nat) :
    (t.timersFrom next states).Pairwise fun u v => ¬ (v.state = u.state ∧ v.millis = u.millis) := by
  have hpairwise := ht.delays_pairwise hnodup
  rw [← List.zipIdx_map_fst next (t.delays states)] at hpairwise
  exact List.pairwise_map.mpr (List.pairwise_map.mp hpairwise)

theorem WellFormed.nodup_delayKeys (ht : t.WellFormed) (hnodup : states.Nodup) :
    (t.delayKeys states).Nodup := by
  apply List.pairwise_map.mpr
  apply (ht.delays_pairwise hnodup).imp
  intro a b hne heq
  apply hne
  obtain ⟨hs, -, hmillis⟩ := by simpa only [Prod.mk.injEq] using heq
  exact ⟨hs.symm, hmillis.symm⟩

theorem key_mem_of_timersFrom {u : Timer} {next : Nat} (h : u ∈ t.timersFrom next states) :
    u.key ∈ t.delayKeys states := by
  rw [← key_timersFrom]
  exact List.mem_map_of_mem h

end StateTree

namespace Interpreter

variable {C : Type} {i j : Interpreter C} {E E' : StateId → Nat → Prop}

/-- **Timers match the journal.** Each armed timer was armed last for its delay and has not gone
off. Where a timer of an active state is missing it has gone off, which the delay allows for. -/
structure Timed (E : StateId → Nat → Prop) (i : Interpreter C) : Prop where
  held : ∀ t ∈ i.timers, Timing.last t.state t.millis i.timings = some (t.id, false)
  gone : ∀ k ∈ i.tree.delayKeys i.configuration.states, k ∉ i.timers.map Timer.key →
    E k.1 k.2.1 ∧ ∃ id, Timing.last k.1 k.2.2 i.timings = some (id, true)

theorem Timed.alike (h : i.Timed E) (hij : Alike i j) : j.Timed E := by
  have htree : j.tree = i.tree := congrArg Machine.tree hij.machine
  constructor
  · rw [hij.timers, hij.timings]
    exact h.held
  · rw [htree, hij.configuration, hij.timers, hij.timings]
    exact h.gone

/-- To arm timers for states that are entered is of no account for the others. -/
theorem Numbered.last_shift (hi : i.Numbered) (hclock : i.Clocked) (exit : List StateId)
    {entry : List StateId} (c : Configuration) (status : Status) {s : StateId} (hs : s ∉ entry)
    (millis : Nat) :
    Timing.last s millis (i.shift exit entry c status).timings =
      Timing.last s millis i.timings := by
  rw [timings_shift hi hclock]
  apply Timing.last_append_other
  intro u hu heq
  apply hs
  exact heq.1 ▸ (StateTree.mem_delayKeys.mp (StateTree.key_mem_of_timersFrom hu)).1

section

variable {kept exit entry : List StateId}

/-- Timers that are kept stay as they were, and those of entered states are armed anew. -/
theorem Timed.held_shift (h : i.Timed E) (hi : i.Coherent) (hclock : i.Clocked)
    (hbefore : i.configuration.states = kept ++ exit.reverse) (hnodup : (kept ++ entry).Nodup)
    (c : Configuration) (status : Status) :
    ∀ t ∈ (i.shift exit entry c status).timers,
      Timing.last t.state t.millis (i.shift exit entry c status).timings = some (t.id, false) := by
  intro t ht
  rw [(hi.numbered.shift_holdings hclock exit entry c status).timers_eq, List.mem_append,
    List.mem_filter] at ht
  rcases ht with ⟨ht, hexit⟩ | ht
  · have hstate := hi.state_mem ht
    rw [hbefore, List.mem_append, List.mem_reverse] at hstate
    have hkept := hstate.resolve_right (by simpa using hexit)
    have hentry : t.state ∉ entry := List.disjoint_of_nodup_append hnodup hkept
    rw [hi.numbered.last_shift hclock exit c status hentry]
    exact h.held t ht
  · rw [timings_shift hi.numbered hclock]
    have hentered := (List.nodup_append.mp hnodup).2.1
    exact Timing.last_append_mem (hi.tree.timersFrom_pairwise hentered i.nextTimer) ht

/-- What is missing afterwards was missing before. -/
theorem Coherent.missing_shift (hi : i.Coherent) (hclock : i.Clocked)
    (hbefore : i.configuration.states = kept ++ exit.reverse) {c : Configuration}
    (hafter : c.states = kept ++ entry) (status : Status) {k : StateId × Nat × Nat}
    (hk : k ∈ i.tree.delayKeys c.states)
    (hmissing : k ∉ (i.shift exit entry c status).timers.map Timer.key) :
    k.1 ∈ kept ∧ k ∈ i.tree.delayKeys i.configuration.states ∧
      k ∉ i.timers.map Timer.key := by
  rw [(hi.numbered.shift_holdings hclock exit entry c status).timers_eq, List.map_append,
    key_timersFrom, List.mem_append, not_or] at hmissing
  rw [hafter, StateTree.delayKeys_append, List.mem_append] at hk
  have hk := hk.resolve_right hmissing.2
  have hkept := (StateTree.mem_delayKeys.mp hk).1
  refine ⟨hkept, ?_, ?_⟩
  · rw [hbefore, StateTree.delayKeys_append]
    exact List.mem_append_left _ hk
  · intro hmem
    obtain ⟨t, ht, rfl⟩ := List.mem_map.mp hmem
    have hexit : t.state ∉ exit := not_mem_exit (hbefore ▸ hi.nodup) hkept
    exact hmissing.1 (List.mem_map_of_mem (List.mem_filter.mpr ⟨ht, by simpa using hexit⟩))

theorem Timed.shift (h : i.Timed E) (hi : i.Coherent) (hclock : i.Clocked) {c : Configuration}
    {status : Status} (hbefore : i.configuration.states = kept ++ exit.reverse)
    (hafter : c.states = kept ++ entry) (hnodup : c.states.Nodup)
    (hE : ∀ s k, s ∉ exit → E s k → E' s k) : (i.shift exit entry c status).Timed E' := by
  have htree := shift_tree i exit entry c status
  rw [hafter] at hnodup
  constructor
  case held => exact h.held_shift hi hclock hbefore hnodup c status
  case gone =>
    intro k hk hmissing
    rw [shift_configuration, htree] at hk
    obtain ⟨hkept, hk, hmissing⟩ := hi.missing_shift hclock hbefore hafter status hk hmissing
    obtain ⟨hexempt, hgone⟩ := h.gone k hk hmissing
    have hentry : k.1 ∉ entry := List.disjoint_of_nodup_append hnodup hkept
    rw [hi.numbered.last_shift hclock exit c status hentry]
    exact ⟨hE _ _ (not_mem_exit (hbefore ▸ hi.nodup) hkept) hexempt, hgone⟩

end

/-- A timer that goes off is missing from then on. -/
theorem Timed.expire (h : i.Timed E) (hi : i.Numbered) {t : Timer} (ht : t ∈ i.timers) :
    (i.expire t.id).Timed fun s k => E s k ∨ (s = t.state ∧ k = t.index) := by
  have htimings := i.timings_expire t.id
  constructor
  case held =>
    intro u hu
    obtain ⟨hu, hne⟩ := List.mem_filter.mp hu
    have hne : (u.id == t.id) = false := by simpa using hne
    simp [htimings, Timing.follow, h.held u hu, hne]
  case gone =>
    intro k hk hmissing
    by_cases hmem : k ∈ i.timers.map Timer.key
    · obtain ⟨u, hu, rfl⟩ := List.mem_map.mp hmem
      have hid : u.id = t.id := by
        by_contra hne
        exact hmissing (List.mem_map_of_mem (List.mem_filter.mpr ⟨hu, by simpa using hne⟩))
      obtain rfl := hi.timer_unique hu ht hid
      refine ⟨.inr ⟨rfl, rfl⟩, u.id, ?_⟩
      rw [htimings, Timing.last_append]
      simp [Timing.follow, Timer.key, h.held u hu]
    · obtain ⟨hexempt, id, hgone⟩ := h.gone k hk hmem
      refine ⟨.inl hexempt, id, ?_⟩
      rw [htimings, Timing.last_append, hgone]
      simp [Timing.follow]

/-- A delay that elapses without a timer changes nothing. -/
theorem Timed.late (h : i.Timed E) {id : TimerId} (hid : ∀ t ∈ i.timers, t.id ≠ id) :
    ((i.note (.dequeued (.timer id))).note (.timerWasCancelled id)).Timed E := by
  have htimings := i.timings_late id
  constructor
  case held =>
    intro t ht
    rw [htimings, Timing.last_append, h.held t ht]
    simp [Timing.follow, hid t ht]
  case gone =>
    intro k hk hmissing
    obtain ⟨hexempt, id', hgone⟩ := h.gone k hk hmissing
    refine ⟨hexempt, id', ?_⟩
    rw [htimings, Timing.last_append, hgone]
    simp [Timing.follow]

theorem Timed.shiftAlong (h : i.Timed E) (hi : i.Coherent) (hs : i.status = .running) {s : StateId}
    {tr : Transition} (hactive : s ∈ i.configuration.states)
    (htr : tr ∈ (i.tree.node s).declared)
    (hE : ∀ s k, s ∉ (i.tree.plan i.configuration tr).exit → E s k → E' s k) :
    (i.shiftAlong tr).Timed E' := by
  obtain ⟨kept, leaf, hspliced⟩ := hi.spliced hs hactive htr
  exact h.shift hi (hi.clocked hs) hspliced.before hspliced.after
    (hi.tree.isPath_of_endsAt hspliced.endsAt).nodup hE

/-- **Every move keeps the timers in line with the journal.** -/
theorem Timed.move (h : i.Timed i.tree.Exempt) (hi : i.Coherent) (hmove : Move i j) :
    j.Timed i.tree.Exempt := by
  cases hmove with
  | aside hij => exact h.alike hij
  | clock hs present => exact ⟨h.held, h.gone⟩
  | launch hs hd hclock =>
    have hempty : i.configuration.states = [] ++ ([] : List StateId).reverse :=
      hi.nothing_active (by simp [hs])
    have hnodup := (hi.tree.isPath_of_endsAt hi.tree.endsAt_initial).nodup
    exact h.shift hi hclock hempty rfl hnodup fun _ _ _ => id
  | take hs hd hactive htr => exact h.shiftAlong hi hs hactive htr fun _ _ _ => id
  | late hs hd hid => exact h.late hid
  | @ring hs hd t delay ht hactive hdelay =>
    have htr := mem_declared_of_after hdelay
    have hexpired := h.expire hi.numbered ht
    refine hexpired.shiftAlong (hi.expire t.id) hs hactive htr ?_
    intro s k hexit hE
    -- The timer that goes off may be missing only if its state is not left.
    rcases hE with hE | ⟨rfl, rfl⟩
    · exact hE
    · intro delay' hdelay'
      obtain rfl := Option.some.inj (hdelay.symm.trans hdelay')
      obtain ⟨leaf, hleaf⟩ := hi.running hs
      by_contra hleaves
      obtain ⟨htarget, hroot⟩ := not_or.mp hleaves
      exact hexit ((hi.tree.source_mem_exit_iff hleaf hactive htr htarget).mpr hroot)
  | lapse hs hd ht hvoid =>
    obtain ⟨hactive, delay, hdelay, -⟩ :=
      StateTree.mem_delayKeys.mp (hi.timers.subset (List.mem_map_of_mem ht))
    rcases hvoid with hvoid | hvoid
    · exact absurd hactive hvoid
    · exact nomatch hdelay.symm.trans hvoid
  | halt hs hd =>
    exact h.shift hi (hi.clocked hs) (states_eq_innermostFirst _) rfl List.nodup_nil fun _ _ _ => id
  | refrain hs hd => exact ⟨h.held, h.gone⟩

/-! ### Every timer goes off at most once -/

/-- What the journal says about the timer numbers. -/
structure Ledger (i : Interpreter C) : Prop where
  /-- Each number is armed exactly once. -/
  numbers : i.timings.filterMap Timing.number? = List.range i.nextTimer
  unrefused : ∀ s millis, .refused s millis ∉ i.timings
  /-- At most one elapsed delay of a timer comes to something. -/
  once : ∀ id, i.timings.count (.elapsed id) ≤ i.timings.count (.dismissed id) + 1
  pending : ∀ id, id ∈ i.timers.map Timer.id ∨ i.nextTimer ≤ id.number →
    i.timings.count (.elapsed id) = i.timings.count (.dismissed id)

theorem Ledger.alike (h : i.Ledger) (hij : Alike i j) : j.Ledger := by
  constructor
  all_goals rw [hij.timings]
  case numbers => rw [hij.nextTimer]; exact h.numbers
  case unrefused => exact h.unrefused
  case once => exact h.once
  case pending => rw [hij.timers, hij.nextTimer]; exact h.pending

theorem number?_map_ofTimer (ts : List Timer) :
    (ts.map Timing.ofTimer).filterMap Timing.number? = ts.map fun t => t.id.number := by
  induction ts with
  | nil => rfl
  | cons t rest ih =>
    rw [List.map_cons, List.map_cons, ← ih]
    rfl

theorem count_map_ofTimer {x : Timing} (hx : x.number? = none) (ts : List Timer) :
    (ts.map Timing.ofTimer).count x = 0 := by
  apply List.count_eq_zero.mpr
  intro hmem
  obtain ⟨t, _, rfl⟩ := List.mem_map.mp hmem
  exact nomatch hx

theorem Ledger.shift (h : i.Ledger) (hi : i.Numbered) (hclock : i.Clocked)
    (exit entry : List StateId) (c : Configuration) (status : Status) :
    (i.shift exit entry c status).Ledger := by
  obtain ⟨_, _, ht, hnext⟩ := hi.shift_holdings hclock exit entry c status
  have htimings := timings_shift hi hclock exit entry c status
  constructor
  case numbers =>
    rw [htimings, List.filterMap_append, h.numbers, number?_map_ofTimer, number_timersFrom, hnext,
      List.range_eq_range', List.range_eq_range', ← List.range'_append_1, Nat.zero_add]
  case unrefused =>
    intro s millis hmem
    rw [htimings, List.mem_append] at hmem
    rcases hmem with hmem | hmem
    · exact h.unrefused s millis hmem
    · obtain ⟨t, _, heq⟩ := List.mem_map.mp hmem
      exact nomatch heq
  case once =>
    intro id
    rw [htimings, List.count_append, List.count_append, count_map_ofTimer rfl,
      count_map_ofTimer rfl]
    exact h.once id
  case pending =>
    intro id hid
    rw [htimings, List.count_append, List.count_append, count_map_ofTimer rfl,
      count_map_ofTimer rfl]
    refine h.pending id ?_
    rw [ht, hnext, List.map_append, List.mem_append] at hid
    rcases hid with (hid | hid) | hid
    · exact .inl ((List.filter_sublist.map _).subset hid)
    · right
      have hnumber : id.number ∈
          (i.tree.timersFrom i.nextTimer entry).map fun t => t.id.number := by
        obtain ⟨t, hmem, rfl⟩ := List.mem_map.mp hid
        exact List.mem_map.mpr ⟨t, hmem, rfl⟩
      rw [number_timersFrom, List.mem_range'_1] at hnumber
      exact hnumber.1
    · right
      omega

theorem Ledger.expire (h : i.Ledger) (hi : i.Numbered) {t : Timer} (ht : t ∈ i.timers) :
    (i.expire t.id).Ledger := by
  have htimings := i.timings_expire t.id
  have hpending := h.pending t.id (.inl (List.mem_map_of_mem ht))
  constructor
  case numbers =>
    rw [htimings, List.filterMap_append, h.numbers]
    exact List.append_nil _
  case unrefused =>
    intro s millis hmem
    rw [htimings, List.mem_append] at hmem
    exact h.unrefused s millis (hmem.resolve_right (by simp))
  case once =>
    intro id
    have honce := h.once id
    rw [htimings, List.count_append, List.count_append]
    by_cases hid : id = t.id
    · rw [hid] at honce ⊢
      simp [hpending]
    · simp [Ne.symm hid, honce]
  case pending =>
    intro id hid
    have hne : id ≠ t.id := by
      rintro rfl
      rcases hid with hid | hid
      · obtain ⟨u, hu, hid⟩ := List.mem_map.mp hid
        exact absurd hid (by simpa using (List.mem_filter.mp hu).2)
      · have hlt := hi.timers.lt t.id.number (List.mem_map.mpr ⟨t, ht, rfl⟩)
        exact Nat.not_lt.mpr hid hlt
    have hpending := h.pending id (hid.imp_left fun hid => (List.filter_sublist.map _).subset hid)
    rw [htimings, List.count_append, List.count_append]
    simp [Ne.symm hne, hpending]

theorem Ledger.late (h : i.Ledger) (id : TimerId) :
    ((i.note (.dequeued (.timer id))).note (.timerWasCancelled id)).Ledger := by
  have htimings := i.timings_late id
  have hcount : ∀ other, [Timing.elapsed id, .dismissed id].count (.elapsed other) =
      [Timing.elapsed id, .dismissed id].count (.dismissed other) := by
    intro other
    by_cases hid : other = id
    · simp [hid]
    · simp [Ne.symm hid]
  constructor
  case numbers =>
    rw [htimings, List.filterMap_append, h.numbers]
    exact List.append_nil _
  case unrefused =>
    intro s millis hmem
    rw [htimings, List.mem_append] at hmem
    exact h.unrefused s millis (hmem.resolve_right (by simp))
  case once =>
    intro other
    have honce := h.once other
    rw [htimings, List.count_append, List.count_append, hcount other]
    omega
  case pending =>
    intro other hother
    rw [htimings, List.count_append, List.count_append, hcount other, h.pending other hother]

theorem Ledger.move (h : i.Ledger) (hi : i.Coherent) (hmove : Move i j) : j.Ledger := by
  cases hmove with
  | aside hij => exact h.alike hij
  | clock hs present => exact ⟨h.numbers, h.unrefused, h.once, h.pending⟩
  | launch hs hd hclock => exact h.shift hi.numbered hclock _ _ _ _
  | take hs hd hactive htr => exact h.shift hi.numbered (hi.clocked hs) _ _ _ _
  | late hs hd hid => exact h.late _
  | ring hs hd ht hactive hdelay =>
    exact (h.expire hi.numbered ht).shift (hi.expire _).numbered ((hi.expire _).clocked hs) _ _ _ _
  | lapse hs hd ht hvoid => exact h.expire hi.numbered ht
  | halt hs hd => exact h.shift hi.numbered (hi.clocked hs) _ _ _ _
  | refrain hs hd => exact ⟨h.numbers, h.unrefused, h.once, h.pending⟩

/-! ### Reachable states -/

theorem Reachable.timed {d : Definition} {host : Implementations C} {m : Machine C}
    (hm : Machine.build d host = .ok m) (hi : Reachable m i) (hd : i.dropped = false) :
    i.Timed m.tree.Exempt := by
  have htimed : i.dropped = false → i.Timed i.tree.Exempt := by
    refine Reachable.invariant_of_coherent hm
      (P := fun i => i.dropped = false → i.Timed i.tree.Exempt) ?_ ?_ ?_ hi
    · intro context limit _
      exact ⟨nofun, nofun⟩
    · intro i j hcoherent h hmove hd
      have htree : j.tree = i.tree := congrArg Machine.tree hmove.machine
      rw [htree]
      exact (h (hmove.dropped ▸ hd)).move hcoherent hmove
    · intro i _ _ _ hd
      exact nomatch (dropped_drop i).symm.trans hd
  have htree : i.tree = m.tree := congrArg Machine.tree hi.machine
  exact htree ▸ htimed hd

theorem Ledger.drop (h : i.Ledger) (hd : i.dropped = false) : i.drop.Ledger := by
  obtain ⟨_, _, ht, hnext⟩ := drop_holdings hd
  have htimings : i.drop.timings = i.timings := by
    rw [Interpreter.drop, hd]
    exact foldl_unchanged timings timings_stopInvocation i.invocations.reverse i
  constructor
  all_goals rw [htimings]
  case numbers => rw [hnext]; exact h.numbers
  case unrefused => exact h.unrefused
  case once => exact h.once
  case pending =>
    rw [ht, hnext]
    intro id hid
    exact h.pending id (.inr (hid.resolve_left (by simp)))

theorem Reachable.ledger {d : Definition} {host : Implementations C} {m : Machine C}
    (hm : Machine.build d host = .ok m) (hi : Reachable m i) : i.Ledger := by
  refine Reachable.invariant_of_coherent hm (fun context limit => ?_)
    (fun _ _ hi h hmove => h.move hi hmove) (fun _ _ h hd => h.drop hd) hi
  exact ⟨rfl, nofun, fun _ => Nat.zero_le _, fun _ _ => rfl⟩

theorem delayKeys_eq (t : StateTree) (states : List StateId) :
    t.delayKeys states = states.flatMap fun s =>
      (t.node s).after.zipIdx.map fun d => (s, d.2, d.1.millis) := by
  rw [StateTree.delayKeys, StateTree.delays, List.map_flatMap]
  simp only [List.map_map]
  rfl

/-! What arms timers is a transition or a start, for the delays of the states that it enters. -/

theorem timings_take (hi : i.Numbered) (hclock : i.Clocked) (tr : Transition) (event : Event) :
    (i.take tr event).1.timings = i.timings ++
      (i.tree.timersFrom i.nextTimer (i.tree.plan i.configuration tr).entry).map
        Timing.ofTimer := by
  rw [take_eq, (alike_react _ rfl _ _ _).timings]
  exact timings_shift hi hclock _ _ _ _

theorem timings_launch (hi : i.Numbered) (hclock : i.Clocked) :
    i.launch.1.timings = i.timings ++
      (i.tree.timersFrom i.nextTimer (i.tree.initialPath i.tree.root)).map Timing.ofTimer := by
  rw [launch, (alike_react _ rfl _ _ _).timings]
  exact timings_shift hi hclock _ _ _ _

/-- A timer of an active state is missing just if it has gone off since the state was entered. -/
theorem Timed.missing_iff (h : i.Timed E) {k : StateId × Nat × Nat}
    (hk : k ∈ i.tree.delayKeys i.configuration.states) :
    k ∉ i.timers.map Timer.key ↔ Timing.GoneOff k.1 k.2.2 i.timings := by
  rw [Timing.goneOff_iff]
  refine ⟨fun hmissing => (h.gone k hk hmissing).2, ?_⟩
  rintro ⟨id, hgone⟩ hmem
  obtain ⟨t, ht, rfl⟩ := List.mem_map.mp hmem
  exact nomatch hgone.symm.trans (h.held t ht)

/-- **The armed timers of a running machine.** They belong to the delays of the active states, in
the order of the path and of the delays, each at most once. One is missing just if it has gone off
since its state was entered, and then its transition has no target or is one of the root. Timers
are armed when states are entered. An elapsed delay is taken if its timer is armed and is of no
account otherwise, so it is taken at most once for each arming; and no timer is refused for want of
a clock. -/
theorem Reachable.timers_eq {d : Definition} {host : Implementations C} {m : Machine C}
    (hm : Machine.build d host = .ok m) (hi : Reachable m i) (hs : i.status = .running)
    (hd : i.dropped = false) :
    let due := i.configuration.states.flatMap fun s =>
      (m.tree.node s).after.zipIdx.map fun d => (s, d.2, d.1.millis)
    let armed := i.timers.map fun t => (t.state, t.index, t.millis)
    (armed.Sublist due ∧ due.Nodup ∧
      (∀ s, (m.tree.node s).after.Pairwise fun a b => a.millis < b.millis) ∧
      i.timers.Pairwise fun t u => t.id.number < u.id.number) ∧
    (∀ s ∈ i.configuration.states, ∀ k delay, (m.tree.node s).after[k]? = some delay →
      ((s, k, delay.millis) ∉ armed ↔ Timing.GoneOff s delay.millis i.timings) ∧
      ((s, k, delay.millis) ∉ armed → delay.transition.target = none ∨ s = m.tree.root)) ∧
    (∀ tr event, (i.take tr event).1.timings = i.timings ++
      (m.tree.timersFrom i.nextTimer (m.tree.plan i.configuration tr).entry).map
        Timing.ofTimer) ∧
    (∀ j, Reachable m j → j.Clocked → j.launch.1.timings = j.timings ++
      (m.tree.timersFrom j.nextTimer (m.tree.initialPath m.tree.root)).map Timing.ofTimer) ∧
    (∀ id rest,
      (∃ t ∈ i.timers, t.id = id ∧ ∃ delay, (m.tree.node t.state).after[t.index]? = some delay ∧
        i.handle (.timer id) rest =
          { i.expire id with queue := rest }.take delay.transition (.named delay.event)) ∨
      (∀ t ∈ i.timers, t.id ≠ id) ∧ i.handle (.timer id) rest =
        ((i.pull (.timer id) rest).note (.timerWasCancelled id), none)) ∧
    (∀ id, i.timings.count (.elapsed id) ≤ i.timings.count (.dismissed id) + 1) ∧
    (i.timings.filterMap Timing.number?).Nodup ∧
    (∀ s millis, .refused s millis ∉ i.timings) := by
  intro due armed
  have hcoherent := hi.coherent hm
  have htree : i.tree = m.tree := congrArg Machine.tree hi.machine
  have htimed := hi.timed hm hd
  have hledger := hi.ledger hm
  have hdue : due = i.tree.delayKeys i.configuration.states := by
    rw [delayKeys_eq, htree]
  refine ⟨⟨?_, ?_, ?_, ?_⟩, ?_, ?_, ?_, ?_, hledger.once, ?_, hledger.unrefused⟩
  · rw [hdue]
    exact hcoherent.timers
  · rw [hdue]
    exact hcoherent.tree.nodup_delayKeys hcoherent.nodup
  · exact htree ▸ hcoherent.tree.after
  · exact List.pairwise_map.mp hcoherent.numbered.timers.pairwise
  · intro s hactive k delay hdelay
    have hk : (s, k, delay.millis) ∈ i.tree.delayKeys i.configuration.states :=
      StateTree.mem_delayKeys.mpr ⟨hactive, delay, htree ▸ hdelay, rfl⟩
    exact ⟨htimed.missing_iff hk, fun hmissing => (htimed.gone _ hk hmissing).1 delay hdelay⟩
  · rw [← htree]
    exact timings_take hcoherent.numbered (hcoherent.clocked hs)
  · intro j hj hclock
    have htree : j.tree = m.tree := congrArg Machine.tree hj.machine
    rw [← htree]
    exact timings_launch (hj.coherent hm).numbered hclock
  · intro id rest
    rw [← htree]
    exact hcoherent.handle_timer id rest
  · rw [hledger.numbers]
    exact List.nodup_range

end Interpreter

/-- A ferry at sea once it has been calm for 30 milliseconds. -/
def ferryBecalmed : Interpreter Nat := (ferryAtSea.perform (.elapse ⟨1⟩)).perform (.drain 2)

/-- The timer for this delay has gone off and is missing, and the others are armed still. -/
theorem ferryBecalmed_timers :
    ferryBecalmed.status = .running ∧ ferryBecalmed.dropped = false ∧
    (ferryBecalmed.configuration.states.flatMap fun s =>
      (ferryMachine.tree.node s).after.zipIdx.map fun d => (s, d.2, d.1.millis)) =
        [(⟨2⟩, 0, 90), (⟨3⟩, 0, 30), (⟨3⟩, 1, 60)] ∧
    (ferryBecalmed.timers.map fun t => (t.state, t.index, t.millis)) =
      [(⟨2⟩, 0, 90), (⟨3⟩, 1, 60)] ∧
    Timing.GoneOff ⟨3⟩ 30 ferryBecalmed.timings ∧
    ferryBecalmed.timers.Pairwise fun t u => t.id.number < u.id.number := by
  have hrunning : ferryBecalmed.status = .running := by decide +kernel
  have hthere : ferryBecalmed.dropped = false := by decide +kernel
  have harmed : (ferryBecalmed.timers.map fun t => (t.state, t.index, t.millis)) =
      [(⟨2⟩, 0, 90), (⟨3⟩, 1, 60)] := by decide +kernel
  have hreachable : Interpreter.Reachable ferryMachine ferryBecalmed :=
    (reachable_ferryAtSea.call (.elapse ⟨1⟩)).call (.drain 2)
  obtain ⟨⟨-, -, -, hrising⟩, hmissing, -⟩ :=
    Interpreter.Reachable.timers_eq build_ferry hreachable hrunning hthere
  refine ⟨hrunning, hthere, by decide +kernel, harmed, ?_, hrising⟩
  obtain ⟨delay, hdelay, hmillis⟩ : ∃ delay,
      (ferryMachine.tree.node ⟨3⟩).after[0]? = some delay ∧ delay.millis = 30 :=
    ⟨_, rfl, rfl⟩
  rw [← hmillis]
  refine ((hmissing ⟨3⟩ (by decide +kernel) 0 delay hdelay).1).mp ?_
  rw [harmed, hmillis]
  decide

end Statechart
