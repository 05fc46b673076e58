import Statechart.Proofs.Interpreter.Calls
import Statechart.Proofs.Tree.WellFormed

/-!
# Coherence

In every reachable state the active states are a path down to a leaf while the machine runs and
none otherwise, and what is held belongs to the active states (`Coherent`). Every move keeps this up
because a shift treats all alike: the path, the invocations and the timers lose an end and get
another one (`Coherent.shift`).
-/

namespace Statechart

theorem Machine.wellFormed_of_build {C : Type} {d : Definition} {host : Implementations C}
    {m : Machine C} (h : Machine.build d host = .ok m) : m.tree.WellFormed := by
  unfold Machine.build at h
  split at h
  case h_1 => exact nomatch h
  case h_2 tree htree =>
    split at h
    case h_1 => exact nomatch h
    case h_2 =>
      split at h
      case h_1 => exact nomatch h
      case h_2 =>
        cases h
        exact StateTree.wellFormed_of_build htree

namespace Interpreter

variable {C : Type} {i j : Interpreter C}

/-- What is held belongs to the active states, which are as the status says. -/
structure Coherent (i : Interpreter C) : Prop where
  tree : i.tree.WellFormed
  numbered : i.Numbered
  running : i.status = .running → ∃ leaf, i.configuration.EndsAt i.tree leaf
  idle : i.status ≠ .running → i.configuration = .empty
  clocked : i.status = .running → i.Clocked
  invocations : i.dropped = false →
    i.invocations.map Invocation.key = i.tree.invokeKeys i.configuration.states
  /-- Timers may have gone off. -/
  timers : (i.timers.map Timer.key).Sublist (i.tree.delayKeys i.configuration.states)
  dropped : i.dropped = true → i.invocations = [] ∧ i.timers = []

theorem coherent_fresh {m : Machine C} (hm : m.tree.WellFormed) (context : C) (limit : Nat) :
    ((Interpreter.new m context).withHistoryLimit limit).Coherent where
  tree := hm
  numbered := ⟨.nil, .nil⟩
  running := nofun
  idle _ := rfl
  clocked := nofun
  invocations _ := rfl
  timers := List.Sublist.refl _
  dropped := nofun

theorem Coherent.alike (hi : i.Coherent) (h : Alike i j) : j.Coherent := by
  have htree : j.tree = i.tree := congrArg Machine.tree h.machine
  constructor
  case numbered =>
    constructor
    · rw [h.invocations, h.emitters]
      exact hi.numbered.invocations
    · rw [h.timers, h.nextTimer]
      exact hi.numbered.timers
  all_goals simp only [htree, Clocked, h.configuration, h.status, h.invocations, h.timers,
    h.hasClock, h.dropped]
  case tree => exact hi.tree
  case running => exact hi.running
  case idle => exact hi.idle
  case clocked => exact hi.clocked
  case invocations => exact hi.invocations
  case timers => exact hi.timers
  case dropped => exact hi.dropped

theorem Coherent.nodup (hi : i.Coherent) : i.configuration.states.Nodup := by
  by_cases hs : i.status = .running
  · obtain ⟨leaf, hleaf⟩ := hi.running hs
    exact (hi.tree.isPath_of_endsAt hleaf).nodup
  · rw [hi.idle hs]
    exact List.nodup_nil

theorem Coherent.nothing_active (hi : i.Coherent) (hs : i.status ≠ .running) :
    i.configuration.states = [] := by
  rw [hi.idle hs]
  rfl

theorem Coherent.state_mem (hi : i.Coherent) {t : Timer} (ht : t ∈ i.timers) :
    t.state ∈ i.configuration.states :=
  (StateTree.mem_delayKeys.mp (hi.timers.subset (List.mem_map_of_mem ht))).1

/-- What a transition of an active state does to the path. -/
theorem Coherent.spliced (hi : i.Coherent) (hs : i.status = .running) {s : StateId}
    {tr : Transition} (hactive : s ∈ i.configuration.states)
    (htr : tr ∈ (i.tree.node s).declared) :
    ∃ kept leaf, i.tree.Spliced i.configuration (i.tree.plan i.configuration tr) kept leaf := by
  obtain ⟨leaf, hleaf⟩ := hi.running hs
  exact hi.tree.plan_splice hleaf hactive htr

theorem not_mem_exit {kept exit : List StateId} (h : (kept ++ exit.reverse).Nodup) {s : StateId}
    (hs : s ∈ kept) : s ∉ exit := by
  intro hexit
  exact List.disjoint_of_nodup_append h hs (List.mem_reverse.mpr hexit)

theorem nodup_exit {kept exit : List StateId} (h : (kept ++ exit.reverse).Nodup) : exit.Nodup :=
  List.nodup_reverse.mp (List.nodup_append.mp h).2.1

/-- Of a path whose end is left the rest is kept. -/
theorem filter_kept {kept exit : List StateId} (h : (kept ++ exit.reverse).Nodup) :
    (kept ++ exit.reverse).filter (fun s => !exit.contains s) = kept := by
  have hkept : ∀ s ∈ kept, s ∉ exit := by
    intro s hs
    exact not_mem_exit h hs
  rw [List.filter_append, List.filter_eq_self.mpr (by simpa using hkept),
    List.filter_eq_nil_iff.mpr (by simp), List.append_nil]

theorem states_eq_innermostFirst (c : Configuration) :
    c.states = [] ++ c.innermostFirst.reverse := by
  rw [Configuration.innermostFirst, List.reverse_reverse, List.nil_append]

/-- **A shift keeps an interpreter coherent.** -/
theorem Coherent.shift (hi : i.Coherent) (hd : i.dropped = false) (hclock : i.Clocked)
    {kept exit entry : List StateId} {c : Configuration} {status : Status}
    (hbefore : i.configuration.states = kept ++ exit.reverse)
    (hafter : c.states = kept ++ entry)
    (hrunning : status = .running → ∃ leaf, c.EndsAt i.tree leaf)
    (hidle : status ≠ .running → c = .empty) : (i.shift exit entry c status).Coherent := by
  have hkept : i.configuration.states.filter (fun s => !exit.contains s) = kept := by
    rw [hbefore]
    exact filter_kept (hbefore ▸ hi.nodup)
  obtain ⟨hv, hsize, ht, hnext⟩ := hi.numbered.shift_holdings hclock exit entry c status
  constructor
  case numbered => exact hi.numbered.shift hclock exit entry c status
  all_goals simp only [shift_tree, shift_configuration, shift_status, shift_hasClock, shift_dropped,
    Clocked, hv, ht]
  case tree => exact hi.tree
  case running => exact hrunning
  case idle => exact hidle
  case clocked => exact fun _ => hclock
  case invocations =>
    -- What the states at the end declared is gone, and what the entered ones declare comes last.
    intro _
    rw [List.map_append, key_invocationsFrom, hafter, StateTree.invokeKeys_append, ← hkept,
      ← StateTree.invokeKeys_filter, ← hi.invocations hd, List.filter_map]
    rfl
  case timers =>
    rw [List.map_append, key_timersFrom, hafter, StateTree.delayKeys_append, ← hkept,
      ← StateTree.delayKeys_filter]
    have hfilter := hi.timers.filter fun k => !exit.contains k.1
    rw [List.filter_map] at hfilter
    exact hfilter.append_right _
  case dropped => simp [hd]

theorem Coherent.expire (hi : i.Coherent) (id : TimerId) : (i.expire id).Coherent where
  tree := hi.tree
  numbered := ⟨hi.numbered.invocations, hi.numbered.timers.sublist (List.filter_sublist.map _)⟩
  running := hi.running
  idle := hi.idle
  clocked := hi.clocked
  invocations := hi.invocations
  timers := (List.filter_sublist.map _).trans hi.timers
  dropped hd := by
    obtain ⟨hv, ht⟩ := hi.dropped hd
    exact ⟨hv, by simp [Interpreter.expire, ht]⟩

theorem Coherent.shiftAlong (hi : i.Coherent) (hs : i.status = .running) (hd : i.dropped = false)
    {s : StateId} {tr : Transition} (hactive : s ∈ i.configuration.states)
    (htr : tr ∈ (i.tree.node s).declared) : (i.shiftAlong tr).Coherent := by
  obtain ⟨kept, leaf, hspliced⟩ := hi.spliced hs hactive htr
  exact hi.shift hd (hi.clocked hs) hspliced.before hspliced.after
    (fun _ => ⟨leaf, hspliced.endsAt⟩) (fun h => absurd hs h)

theorem mem_declared_of_after {n : Node} {k : Nat} {delay : Delay} (h : n.after[k]? = some delay) :
    delay.transition ∈ n.declared :=
  List.mem_append_right _ (List.mem_map.mpr ⟨delay, List.mem_of_getElem? h, rfl⟩)

/-- **Every move keeps an interpreter coherent.** -/
theorem Coherent.move (hi : i.Coherent) (h : Move i j) : j.Coherent := by
  cases h with
  | aside h => exact hi.alike h
  | clock hs present =>
    exact { hi with
      numbered := ⟨hi.numbered.invocations, hi.numbered.timers⟩
      clocked := fun h => nomatch hs.symm.trans h }
  | launch hs hd hclock =>
    have hempty : i.configuration.states = [] ++ ([] : List StateId).reverse :=
      hi.nothing_active (by simp [hs])
    exact hi.shift hd hclock hempty rfl (fun _ => ⟨_, hi.tree.endsAt_initial⟩)
      (fun h => absurd rfl h)
  | take hs hd hactive htr => exact hi.shiftAlong hs hd hactive htr
  | late hs hd hid =>
    exact { hi with numbered := ⟨hi.numbered.invocations, hi.numbered.timers⟩ }
  | ring hs hd ht hactive hdelay =>
    exact (hi.expire _).shiftAlong hs hd hactive (mem_declared_of_after hdelay)
  | lapse hs hd ht hvoid => exact hi.expire _
  | halt hs hd =>
    exact hi.shift hd (hi.clocked hs) (states_eq_innermostFirst _) rfl nofun (fun _ => rfl)
  | refrain hs hd =>
    exact { hi with
      numbered := ⟨hi.numbered.invocations, hi.numbered.timers⟩
      running := nofun
      idle := fun _ => hi.idle (by simp [hs])
      clocked := nofun }

theorem Coherent.pull (hi : i.Coherent) (e : Envelope) (rest : List Envelope) :
    (i.pull e rest).Coherent :=
  { hi with numbered := ⟨hi.numbered.invocations, hi.numbered.timers⟩ }

/-- An elapsed delay is taken if its timer is armed, and is of no account otherwise. -/
theorem Coherent.handle_timer (hi : i.Coherent) (id : TimerId) (rest : List Envelope) :
    (∃ t ∈ i.timers, t.id = id ∧ ∃ delay, (i.tree.node t.state).after[t.index]? = some delay ∧
      i.handle (.timer id) rest =
        { i.expire id with queue := rest }.take delay.transition (.named delay.event)) ∨
    (∀ t ∈ i.timers, t.id ≠ id) ∧ i.handle (.timer id) rest =
      ((i.pull (.timer id) rest).note (.timerWasCancelled id), none) := by
  cases hfind : i.timers.find? fun t => t.id == id with
  | none =>
    right
    have hid : ∀ t ∈ i.timers, t.id ≠ id := by simpa using List.find?_eq_none.mp hfind
    exact ⟨hid, processTimer_of_missing hfind⟩
  | some t =>
    left
    have ht : t ∈ i.timers := List.mem_of_find?_eq_some hfind
    obtain rfl : t.id = id := by simpa using List.find?_some hfind
    obtain ⟨hactive, delay, hdelay, -⟩ :=
      StateTree.mem_delayKeys.mp (hi.timers.subset (List.mem_map_of_mem ht))
    exact ⟨t, ht, rfl, delay, hdelay, processTimer_of_armed hfind hactive hdelay⟩

theorem Coherent.drop (hi : i.Coherent) (hd : i.dropped = false) : i.drop.Coherent := by
  obtain ⟨hv, -, ht, -⟩ := drop_holdings hd
  have hscene := sameScene_drop hd
  constructor
  case numbered => exact ⟨by rw [hv]; exact .nil, by rw [ht]; exact .nil⟩
  all_goals simp only [Clocked, hscene.tree, hscene.configuration, hscene.status, hscene.hasClock,
    dropped_drop, hv, ht]
  case tree => exact hi.tree
  case running => exact hi.running
  case idle => exact hi.idle
  case clocked => exact hi.clocked
  case invocations =>
    intro h
    cases h
  case timers => exact List.nil_sublist _
  case dropped => simp

theorem Reachable.coherent {d : Definition} {host : Implementations C} {m : Machine C}
    (hm : Machine.build d host = .ok m) (hi : Reachable m i) : i.Coherent :=
  hi.invariant (coherent_fresh (Machine.wellFormed_of_build hm)) (fun _ _ => Coherent.move)
    (fun _ => Coherent.drop)

/-- What is kept up in coherent interpreters holds in every reachable state. -/
theorem Reachable.invariant_of_coherent {d : Definition} {host : Implementations C} {m : Machine C}
    (hm : Machine.build d host = .ok m) {P : Interpreter C → Prop}
    (hfresh : ∀ context limit, P ((Interpreter.new m context).withHistoryLimit limit))
    (hmove : ∀ i j, i.Coherent → P i → Move i j → P j)
    (hdrop : ∀ i, i.Coherent → P i → i.dropped = false → P i.drop)
    (hi : Reachable m i) : P i := by
  have htree := Machine.wellFormed_of_build hm
  have hboth : i.Coherent ∧ P i := by
    refine Reachable.invariant (P := fun i => i.Coherent ∧ P i) ?_ ?_ ?_ hi
    · intro context limit
      exact ⟨coherent_fresh htree context limit, hfresh context limit⟩
    · intro i j h hij
      exact ⟨h.1.move hij, hmove i j h.1 h.2 hij⟩
    · intro i h hd
      exact ⟨h.1.drop hd, hdrop i h.1 h.2 hd⟩
  exact hboth.2

theorem Move.machine (h : Move i j) : j.machine = i.machine := by
  cases h with
  | aside h => exact h.machine
  | launch => exact shift_machine ..
  | take => exact shift_machine ..
  | ring => exact shift_machine ..
  | halt => exact shift_machine ..
  | _ => rfl

theorem Reachable.machine {m : Machine C} (hi : Reachable m i) : i.machine = m :=
  hi.invariant (fun _ _ => rfl) (fun _ _ h hmove => hmove.machine.trans h)
    (fun _ h hd => (sameScene_drop hd).machine.trans h)

end Interpreter

end Statechart
