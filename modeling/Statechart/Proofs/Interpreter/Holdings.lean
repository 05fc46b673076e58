import Mathlib.Data.List.Nodup
import Mathlib.Data.List.Range
import Statechart.Proofs.Interpreter.Frame

/-!
# What an interpreter holds

An interpreter holds invocations and timers, both under rising numbers (`Numbered`). Leaving states
drops what belongs to them (`leaveAll_holdings`). Entering states appends what they declare, under
new numbers (`enterAll_holdings`).
-/

namespace Statechart

/-! ### Rising numbers -/

/-- The numbers rise and have not reached `next`. -/
structure Rising (l : List Nat) (next : Nat) : Prop where
  pairwise : l.Pairwise (· < ·)
  lt : ∀ n ∈ l, n < next

namespace Rising

variable {l m : List Nat} {next : Nat}

theorem nil : Rising [] next := ⟨List.Pairwise.nil, by simp⟩

theorem sublist (h : Rising m next) (hl : l.Sublist m) : Rising l next :=
  ⟨h.pairwise.sublist hl, fun n hn => h.lt n (hl.subset hn)⟩

theorem nodup (h : Rising l next) : l.Nodup := h.pairwise.imp fun hab => Nat.ne_of_lt hab

/-- Numbers that are given out one after another keep rising. -/
theorem append_range' (h : Rising l next) (k : Nat) :
    Rising (l ++ List.range' next k) (next + k) where
  pairwise := by
    refine List.pairwise_append.mpr ⟨h.pairwise, List.pairwise_lt_range', ?_⟩
    intro a ha b hb
    have hlt := h.lt a ha
    have hle := (List.mem_range'_1.mp hb).1
    omega
  lt := by
    intro n hn
    rcases List.mem_append.mp hn with hn | hn
    · have := h.lt n hn
      omega
    · exact (List.mem_range'_1.mp hn).2

end Rising

/-! ### What states declare -/

theorem filter_flatMap_pair {α β : Type} (f : α → List β) (p : α → Bool) (l : List α) :
    (l.flatMap fun a => (f a).map (Prod.mk a)).filter (fun x => p x.1) =
      (l.filter p).flatMap fun a => (f a).map (Prod.mk a) := by
  induction l with
  | nil => rfl
  | cons a rest ih =>
    rw [List.flatMap_cons, List.filter_append, ih]
    cases hp : p a <;> simp [List.filter_map, Function.comp_def, hp]

/-- What an invocation is, but for its number and its service. -/
def Invocation.key (v : Invocation) : StateId × String := (v.state, v.id)

/-- What a timer is, but for its number. -/
def Timer.key (t : Timer) : StateId × Nat × Nat := (t.state, t.index, t.millis)

namespace StateTree

variable (t : StateTree)

/-- The invocations that the states declare. -/
def invokes (states : List StateId) : List (StateId × Invoke) :=
  states.flatMap fun s => (t.node s).invoke.map (Prod.mk s)

/-- The delayed transitions that the states declare, with their indices. -/
def delays (states : List StateId) : List (StateId × Delay × Nat) :=
  states.flatMap fun s => (t.node s).after.zipIdx.map (Prod.mk s)

/-- The keys of the invocations that the states declare. -/
def invokeKeys (states : List StateId) : List (StateId × String) :=
  (t.invokes states).map fun v => (v.1, v.2.id)

/-- The keys of the timers that the states declare. -/
def delayKeys (states : List StateId) : List (StateId × Nat × Nat) :=
  (t.delays states).map fun d => (d.1, d.2.2, d.2.1.millis)

theorem invokes_append (a b : List StateId) : t.invokes (a ++ b) = t.invokes a ++ t.invokes b :=
  List.flatMap_append

theorem delays_append (a b : List StateId) : t.delays (a ++ b) = t.delays a ++ t.delays b :=
  List.flatMap_append

theorem hasDelays_of_after {s : StateId} (h : (t.node s).after ≠ []) : t.hasDelays = true := by
  rw [node, node?] at h
  cases hs : t.nodes[s.index]? with
  | none =>
    rw [hs] at h
    exact absurd rfl h
  | some n =>
    rw [hs, Option.getD_some] at h
    refine Array.any_eq_true'.mpr ⟨n, Array.mem_of_getElem? hs, ?_⟩
    simpa [List.isEmpty_iff] using h

theorem invokeKeys_append (a b : List StateId) :
    t.invokeKeys (a ++ b) = t.invokeKeys a ++ t.invokeKeys b := by
  simp only [invokeKeys, invokes_append, List.map_append]

theorem delayKeys_append (a b : List StateId) :
    t.delayKeys (a ++ b) = t.delayKeys a ++ t.delayKeys b := by
  simp only [delayKeys, delays_append, List.map_append]

theorem mem_delayKeys {t : StateTree} {states : List StateId} {k : StateId × Nat × Nat} :
    k ∈ t.delayKeys states ↔ k.1 ∈ states ∧
      ∃ delay, (t.node k.1).after[k.2.1]? = some delay ∧ delay.millis = k.2.2 := by
  obtain ⟨s, n, millis⟩ := k
  simp only [delayKeys, delays, List.mem_map, List.mem_flatMap]
  constructor
  · rintro ⟨_, ⟨s, hs, ⟨delay, n⟩, hmem, rfl⟩, heq⟩
    cases heq
    exact ⟨hs, delay, List.mem_zipIdx_iff_getElem?.mp hmem, rfl⟩
  · rintro ⟨hs, delay, hmem, rfl⟩
    exact ⟨_, ⟨s, hs, (delay, n), List.mem_zipIdx_iff_getElem?.mpr hmem, rfl⟩, rfl⟩

theorem invokeKeys_filter (p : StateId → Bool) (states : List StateId) :
    (t.invokeKeys states).filter (fun k => p k.1) = t.invokeKeys (states.filter p) := by
  rw [invokeKeys, List.filter_map, invokeKeys]
  exact congrArg (List.map _) (filter_flatMap_pair (fun s => (t.node s).invoke) p states)

theorem delayKeys_filter (p : StateId → Bool) (states : List StateId) :
    (t.delayKeys states).filter (fun k => p k.1) = t.delayKeys (states.filter p) := by
  rw [delayKeys, List.filter_map, delayKeys]
  exact congrArg (List.map _) (filter_flatMap_pair (fun s => (t.node s).after.zipIdx) p states)

/-- The timers of the states when the next one has the number `next`. -/
def timersFrom (next : Nat) (states : List StateId) : List Timer :=
  ((t.delays states).zipIdx next).map fun d => ⟨⟨d.2⟩, d.1.1, d.1.2.2, d.1.2.1.millis⟩

end StateTree

/-- The invocations of the states when the next one has the number `next`. -/
def Machine.invocationsFrom {C : Type} (m : Machine C) (next : Nat) (states : List StateId) :
    List Invocation :=
  ((m.tree.invokes states).zipIdx next).map fun v => m.invocation v.2 v.1.1 v.1.2

section Numbers

variable {C : Type} (m : Machine C) (t : StateTree) (next : Nat) (states : List StateId)

theorem invocationsFrom_append (a b : List StateId) :
    m.invocationsFrom next (a ++ b) =
      m.invocationsFrom next a ++ m.invocationsFrom (next + (m.tree.invokes a).length) b := by
  simp only [Machine.invocationsFrom, StateTree.invokes_append, List.zipIdx_append, List.map_append]

theorem timersFrom_append (a b : List StateId) :
    t.timersFrom next (a ++ b) =
      t.timersFrom next a ++ t.timersFrom (next + (t.delays a).length) b := by
  simp only [StateTree.timersFrom, StateTree.delays_append, List.zipIdx_append, List.map_append]

theorem key_invocationsFrom :
    (m.invocationsFrom next states).map Invocation.key = m.tree.invokeKeys states := by
  rw [StateTree.invokeKeys, ← List.zipIdx_map_fst next (m.tree.invokes states),
    Machine.invocationsFrom, List.map_map, List.map_map]
  rfl

theorem key_timersFrom : (t.timersFrom next states).map Timer.key = t.delayKeys states := by
  rw [StateTree.delayKeys, ← List.zipIdx_map_fst next (t.delays states), StateTree.timersFrom,
    List.map_map, List.map_map]
  rfl

theorem number_invocationsFrom :
    ((m.invocationsFrom next states).map fun v => v.origin.number) =
      List.range' next (m.tree.invokes states).length := by
  rw [Machine.invocationsFrom, List.map_map, ← List.zipIdx_map_snd]
  rfl

theorem number_timersFrom :
    ((t.timersFrom next states).map fun u => u.id.number) =
      List.range' next (t.delays states).length := by
  rw [StateTree.timersFrom, List.map_map, ← List.zipIdx_map_snd]
  rfl

end Numbers

/-- What belongs to another one stays there. -/
theorem filter_eq_of_ne {α β : Type} [DecidableEq β] (f : α → β) (l : List α) {b c : β}
    (h : c ≠ b) : ((l.filter fun a => f a != b).filter fun a => f a == c) =
      l.filter fun a => f a == c := by
  rw [List.filter_filter]
  apply List.filter_congr
  intro a _
  by_cases ha : f a = c
  · simp [ha, h]
  · simp [ha]

/-- Taking what belongs to one after another is taking all that belongs to any of them. -/
theorem flatMap_filter_perm {α β : Type} [DecidableEq β] (f : α → β) (l : List α) {bs : List β}
    (h : bs.Nodup) : (bs.flatMap fun b => l.filter fun a => f a == b).Perm
      (l.filter fun a => bs.contains (f a)) := by
  induction bs with
  | nil => simp
  | cons b rest ih =>
    obtain ⟨hb, hrest⟩ := List.nodup_cons.mp h
    have hfirst : ((l.filter fun a => (b :: rest).contains (f a)).filter fun a => f a == b) =
        l.filter fun a => f a == b := by
      rw [List.filter_filter]
      apply List.filter_congr
      intro a _
      by_cases ha : f a = b <;> simp [ha]
    have hothers : ((l.filter fun a => (b :: rest).contains (f a)).filter fun a => !(f a == b)) =
        l.filter fun a => rest.contains (f a) := by
      rw [List.filter_filter]
      apply List.filter_congr
      intro a _
      by_cases ha : f a = b
      · simp [ha, hb]
      · simp [ha]
    have hsplit := List.filter_append_perm (fun a => f a == b)
      (l.filter fun a => (b :: rest).contains (f a))
    rw [hfirst, hothers] at hsplit
    exact ((ih hrest).append_left _).trans hsplit

/-- Dropping what belongs to one and then to others is dropping what belongs to any of them. -/
theorem filter_filter_ne {α β : Type} [DecidableEq β] (f : α → β) (l : List α) (b : β)
    (bs : List β) : (l.filter fun a => f a != b).filter (fun a => !bs.contains (f a)) =
      l.filter fun a => !(b :: bs).contains (f a) := by
  rw [List.filter_filter]
  apply List.filter_congr
  intro a _
  rw [List.contains_cons, Bool.not_or, Bool.and_comm]
  rfl

namespace Interpreter

variable {C : Type} {i : Interpreter C}

/-- What is held: these invocations and timers, and there were `size` invocations and `next` timers
so far. -/
structure Held (i : Interpreter C) (invocations : List Invocation) (size : Nat)
    (timers : List Timer) (next : Nat) : Prop where
  invocations_eq : i.invocations = invocations
  size_eq : i.emitters.size = size
  timers_eq : i.timers = timers
  nextTimer_eq : i.nextTimer = next

/-- What is held has rising numbers. -/
structure Numbered (i : Interpreter C) : Prop where
  invocations : Rising (i.invocations.map fun v => v.origin.number) i.emitters.size
  timers : Rising (i.timers.map fun t => t.id.number) i.nextTimer

theorem Numbered.invocation_unique (hi : i.Numbered) {v w : Invocation} (hv : v ∈ i.invocations)
    (hw : w ∈ i.invocations) (h : v.origin = w.origin) : v = w :=
  List.inj_on_of_nodup_map hi.invocations.nodup hv hw (congrArg InvocationId.number h)

theorem Numbered.timer_unique (hi : i.Numbered) {t u : Timer} (ht : t ∈ i.timers)
    (hu : u ∈ i.timers) (h : t.id = u.id) : t = u :=
  List.inj_on_of_nodup_map hi.timers.nodup ht hu (congrArg TimerId.number h)

/-! ### Leaving -/

theorem stopInvocation_holdings (i : Interpreter C) (v : Invocation) :
    Held (i.stopInvocation v) (i.invocations.filter fun w => w.origin != v.origin)
      i.emitters.size i.timers i.nextTimer := by
  have h := untouched_of_still (still_tearDown
    (({ i with invocations := i.invocations.filter fun w => w.origin != v.origin }.note
      (.invocationStopped v.origin v.id)).silence v.origin) v)
  refine ⟨h.invocations, ?_, h.timers, h.nextTimer⟩
  exact (congrArg Array.size h.emitters).trans Array.size_modify

theorem foldl_stopInvocation_holdings (i : Interpreter C) (l : List Invocation) :
    Held (l.foldl stopInvocation i)
      (i.invocations.filter fun w => !(l.map Invocation.origin).contains w.origin)
      i.emitters.size i.timers i.nextTimer := by
  induction l generalizing i with
  | nil => exact ⟨by simp, rfl, rfl, rfl⟩
  | cons v rest ih =>
    obtain ⟨hinvocations, hsize, htimers, hnext⟩ := stopInvocation_holdings i v
    have hrest := ih (i.stopInvocation v)
    rw [hinvocations, hsize, htimers, hnext, filter_filter_ne] at hrest
    exact hrest

theorem foldl_cancelTimer_holdings (i : Interpreter C) (l : List Timer) :
    Held (l.foldl cancelTimer i) i.invocations i.emitters.size
      (i.timers.filter fun u => !(l.map Timer.id).contains u.id) i.nextTimer := by
  induction l generalizing i with
  | nil => exact ⟨rfl, rfl, by simp, rfl⟩
  | cons t rest ih =>
    have hrest := ih (i.cancelTimer t)
    rw [cancelTimer, filter_filter_ne] at hrest
    exact hrest

theorem Numbered.leave_holdings (hi : i.Numbered) (s : StateId) :
    Held (i.leave s) (i.invocations.filter fun v => v.state != s) i.emitters.size
      (i.timers.filter fun t => t.state != s) i.nextTimer := by
  obtain ⟨hv, hsize, ht, hnext⟩ :=
    foldl_stopInvocation_holdings i (i.invocations.filter fun v => v.state == s).reverse
  obtain ⟨hv', hsize', ht', hnext'⟩ := foldl_cancelTimer_holdings (i.stopInvocations s)
    ((i.stopInvocations s).timers.filter fun t => t.state == s)
  rw [← stopInvocations] at hv hsize ht hnext
  -- What is stopped or cancelled is known by its number, which nothing else has.
  refine ⟨(hv'.trans hv).trans (List.filter_congr ?_), hsize'.trans hsize,
    (ht'.trans (by rw [ht])).trans (List.filter_congr ?_), hnext'.trans hnext⟩
  · intro v hmem
    rw [bne, Bool.not_inj_iff, Bool.eq_iff_iff]
    simp only [List.contains_iff_mem, List.mem_map, List.mem_reverse, List.mem_filter, beq_iff_eq]
    constructor
    · rintro ⟨w, ⟨hw, hs⟩, h⟩
      rwa [← hi.invocation_unique hw hmem h]
    · intro h
      exact ⟨v, ⟨hmem, h⟩, rfl⟩
  · intro t hmem
    rw [bne, Bool.not_inj_iff, Bool.eq_iff_iff]
    simp only [List.contains_iff_mem, List.mem_map, List.mem_filter, beq_iff_eq]
    constructor
    · rintro ⟨u, ⟨hu, hs⟩, h⟩
      rwa [← hi.timer_unique hu hmem h]
    · intro h
      exact ⟨t, ⟨hmem, h⟩, rfl⟩

theorem Numbered.leave (hi : i.Numbered) (s : StateId) : (i.leave s).Numbered := by
  obtain ⟨hv, hsize, ht, hnext⟩ := hi.leave_holdings s
  constructor
  · rw [hv, hsize]
    exact hi.invocations.sublist (List.filter_sublist.map _)
  · rw [ht, hnext]
    exact hi.timers.sublist (List.filter_sublist.map _)

/-- **Leaving states drops what belongs to them** and nothing else. -/
theorem Numbered.leaveAll_holdings (hi : i.Numbered) (states : List StateId) :
    Held (i.leaveAll states) (i.invocations.filter fun v => !states.contains v.state)
      i.emitters.size (i.timers.filter fun t => !states.contains t.state) i.nextTimer := by
  induction states generalizing i with
  | nil => exact ⟨by simp [leaveAll], rfl, by simp [leaveAll], rfl⟩
  | cons s rest ih =>
    obtain ⟨hv, hsize, ht, hnext⟩ := hi.leave_holdings s
    have hrest := ih (hi.leave s)
    rw [hv, hsize, ht, hnext, filter_filter_ne, filter_filter_ne] at hrest
    exact hrest

theorem Numbered.leaveAll (hi : i.Numbered) (states : List StateId) :
    (i.leaveAll states).Numbered := by
  induction states generalizing i with
  | nil => exact hi
  | cons s rest ih => exact ih (hi.leave s)

/-! ### Dropping -/

theorem sameShell_foldl_stopInvocation (i : Interpreter C) (l : List Invocation) :
    SameShell i (l.foldl stopInvocation i) :=
  sameShell_of_shell (foldl_unchanged shell shell_stopInvocation l i)

theorem drop_eq (hd : i.dropped = false) :
    i.drop = { i.invocations.reverse.foldl stopInvocation i with
      timers := [], queue := [], dropped := true } := by
  rw [drop, hd]
  rfl

/-- **Dropping gives up everything**, and starts no invocation. -/
theorem drop_holdings (hd : i.dropped = false) :
    Held i.drop [] i.emitters.size [] i.nextTimer := by
  have hheld := foldl_stopInvocation_holdings i i.invocations.reverse
  rw [drop_eq hd]
  refine ⟨?_, hheld.size_eq, rfl, hheld.nextTimer_eq⟩
  refine hheld.invocations_eq.trans (List.filter_eq_nil_iff.mpr fun v hmem => ?_)
  simpa using ⟨v, hmem, rfl⟩

theorem sameScene_drop (hd : i.dropped = false) : SameScene i i.drop := by
  have hscene := (sameShell_foldl_stopInvocation i i.invocations.reverse).toSameScene
  rw [drop_eq hd]
  exact { hscene with }

theorem dropped_drop (i : Interpreter C) : i.drop.dropped = true := by
  rw [drop]
  split
  case isTrue h => exact h
  case isFalse => rfl

/-! ### Entering -/

theorem startInvocation_holdings (s : StateId) (i : Interpreter C) (v : Invoke) :
    Held (startInvocation s i v) (i.invocations ++ [i.machine.invocation i.emitters.size s v])
      (i.emitters.size + 1) i.timers i.nextTimer := by
  have hran := untouched_deliver (i.announce v) (i.startup v).signals
  have hbegun := untouched_of_still (foldl_unchanged still still_note (i.begunEntries s v)
    ((i.announce v).deliver (i.startup v).signals))
  have hsize : (i.announce v).emitters.size = i.emitters.size + 1 := Array.size_push _
  rw [startInvocation_eq]
  refine ⟨?_, ?_, hbegun.timers.trans hran.timers, hbegun.nextTimer.trans hran.nextTimer⟩
  · exact congrArg (· ++ _) (hbegun.invocations.trans hran.invocations)
  · exact (congrArg Array.size (hbegun.emitters.trans hran.emitters)).trans hsize

theorem foldl_startInvocation_holdings (s : StateId) (i : Interpreter C) (l : List Invoke) :
    Held (l.foldl (startInvocation s) i)
      (i.invocations ++ (l.zipIdx i.emitters.size).map fun v => i.machine.invocation v.2 s v.1)
      (i.emitters.size + l.length) i.timers i.nextTimer := by
  induction l generalizing i with
  | nil => exact ⟨by simp, rfl, rfl, rfl⟩
  | cons v rest ih =>
    obtain ⟨hinvocations, hsize, htimers, hnext⟩ := startInvocation_holdings s i v
    have hmachine := (sameShell_of_shell (shell_startInvocation s i v)).machine
    have hrest := ih (startInvocation s i v)
    rw [hinvocations, hsize, htimers, hnext, hmachine, List.append_assoc, Nat.add_assoc,
      Nat.add_comm 1] at hrest
    rw [List.zipIdx_cons]
    exact hrest

theorem armTimer_holdings (s : StateId) (i : Interpreter C) (delay : Delay × Nat)
    (hclock : i.hasClock = true) :
    Held (armTimer s i delay) i.invocations i.emitters.size
      (i.timers ++ [⟨⟨i.nextTimer⟩, s, delay.2, delay.1.millis⟩]) (i.nextTimer + 1) := by
  rw [armTimer, if_pos hclock]
  exact ⟨rfl, rfl, rfl, rfl⟩

theorem foldl_armTimer_holdings (s : StateId) (i : Interpreter C) (l : List (Delay × Nat))
    (hclock : l ≠ [] → i.hasClock = true) :
    Held (l.foldl (armTimer s) i) i.invocations i.emitters.size
      (i.timers ++ (l.zipIdx i.nextTimer).map fun d => ⟨⟨d.2⟩, s, d.1.2, d.1.1.millis⟩)
      (i.nextTimer + l.length) := by
  induction l generalizing i with
  | nil => exact ⟨rfl, rfl, by simp, rfl⟩
  | cons d rest ih =>
    have hclock := hclock (by simp)
    obtain ⟨hinvocations, hsize, htimers, hnext⟩ := armTimer_holdings s i d hclock
    have hclock' : (armTimer s i d).hasClock = true := by
      rw [(sameShell_of_shell (shell_armTimer s i d)).hasClock, hclock]
    have hrest := ih (armTimer s i d) fun _ => hclock'
    rw [hinvocations, hsize, htimers, hnext, List.append_assoc, Nat.add_assoc,
      Nat.add_comm 1] at hrest
    rw [List.zipIdx_cons]
    exact hrest

/-- There is a clock if the machine has delays. -/
def Clocked (i : Interpreter C) : Prop := i.tree.hasDelays = true → i.hasClock = true

theorem Clocked.enter (h : i.Clocked) (s : StateId) : (i.enter s).Clocked := by
  have hshell := sameShell_of_shell (shell_enter i s)
  rw [Clocked, hshell.tree, hshell.hasClock]
  exact h

theorem enter_holdings (i : Interpreter C) (hclock : i.Clocked) (s : StateId) :
    Held (i.enter s) (i.invocations ++ i.machine.invocationsFrom i.emitters.size [s])
      (i.emitters.size + (i.tree.invokes [s]).length)
      (i.timers ++ i.tree.timersFrom i.nextTimer [s])
      (i.nextTimer + (i.tree.delays [s]).length) := by
  have hstarted := foldl_startInvocation_holdings s i (i.tree.node s).invoke
  have hshell := sameShell_of_shell
    (foldl_unchanged shell (shell_startInvocation s) (i.tree.node s).invoke i)
  have harmed := foldl_armTimer_holdings s
    ((i.tree.node s).invoke.foldl (startInvocation s) i) (i.tree.node s).after.zipIdx (by
      intro h
      rw [hshell.hasClock]
      exact hclock (i.tree.hasDelays_of_after (by simpa using h)))
  obtain ⟨hv, hsize, ht, hnext⟩ := hstarted
  rw [hv, hsize, ht, hnext] at harmed
  simpa [enter, Machine.invocationsFrom, StateTree.timersFrom, StateTree.invokes, StateTree.delays,
    List.zipIdx_map, tree, Function.comp_def] using harmed

/-- **Entering states appends what they declare**, in order and under new numbers. -/
theorem enterAll_holdings (i : Interpreter C) (hclock : i.Clocked) (states : List StateId) :
    Held (i.enterAll states) (i.invocations ++ i.machine.invocationsFrom i.emitters.size states)
      (i.emitters.size + (i.tree.invokes states).length)
      (i.timers ++ i.tree.timersFrom i.nextTimer states)
      (i.nextTimer + (i.tree.delays states).length) := by
  induction states generalizing i with
  | nil => constructor <;> simp [enterAll, Machine.invocationsFrom, StateTree.timersFrom,
      StateTree.invokes, StateTree.delays]
  | cons s rest ih =>
    obtain ⟨hv, hsize, ht, hnext⟩ := enter_holdings i hclock s
    have hshell := sameShell_of_shell (shell_enter i s)
    have hrest := ih (i.enter s) (hclock.enter s)
    rw [hv, hsize, ht, hnext, hshell.machine, hshell.tree] at hrest
    rw [enterAll, List.foldl_cons, ← enterAll, ← List.singleton_append]
    simpa only [invocationsFrom_append, timersFrom_append, StateTree.invokes_append,
      StateTree.delays_append, List.length_append, List.append_assoc, Nat.add_assoc, tree]
      using hrest

theorem Numbered.enterAll (hi : i.Numbered) (hclock : i.Clocked) (states : List StateId) :
    (i.enterAll states).Numbered := by
  obtain ⟨hinvocations, hsize, htimers, hnext⟩ := enterAll_holdings i hclock states
  constructor
  · rw [hinvocations, hsize, List.map_append, number_invocationsFrom]
    exact hi.invocations.append_range' _
  · rw [htimers, hnext, List.map_append, number_timersFrom]
    exact hi.timers.append_range' _

end Interpreter

end Statechart
