import Statechart.Proofs.Interpreter.Coherence
import Statechart.Proofs.Interpreter.Entries

/-!
# What the journal tells about timers

The journal says when timers were armed, when their elapsed delays were taken up, and which of these
came to nothing (`Interpreter.timings`). For a delay of a state one can read off which timer was
armed last and whether its elapsed delay was taken up since (`Timing.last`).
-/

namespace Statechart

/-- What is noted about timers. -/
inductive Timing where
  | armed (id : TimerId) (state : StateId) (millis : Nat)
  /-- there was no clock to arm a timer with -/
  | refused (state : StateId) (millis : Nat)
  /-- an elapsed delay was taken up -/
  | elapsed (id : TimerId)
  /-- but its timer was not armed any more -/
  | dismissed (id : TimerId)
  deriving DecidableEq

namespace Timing

def of? {C : Type} : Entry C → Option Timing
  | .timerArmed id state millis => some (armed id state millis)
  | .timerUnarmed state millis => some (refused state millis)
  | .dequeued (.timer id) => some (elapsed id)
  | .timerWasCancelled id => some (dismissed id)
  | _ => none

theorem of?_eq_none {C : Type} {e : Entry C} (he : e.isDeed = false) : of? e = none := by
  cases e with
  | dequeued envelope =>
    cases envelope with
    | timer id => exact nomatch he
    | _ => rfl
  | timerArmed => exact nomatch he
  | timerUnarmed => exact nomatch he
  | timerWasCancelled => exact nomatch he
  | _ => rfl

theorem of?_of_isService {C : Type} {e : Entry C} (he : e.isService = true) : of? e = none := by
  cases e with
  | dequeued => exact nomatch he
  | timerArmed => exact nomatch he
  | timerUnarmed => exact nomatch he
  | timerWasCancelled => exact nomatch he
  | _ => rfl

/-- The arming of a timer. -/
def ofTimer (t : Timer) : Timing := armed t.id t.state t.millis

/-- The number of a timer that is armed. -/
def number? : Timing → Option Nat
  | armed id _ _ => some id.number
  | _ => none

/-- Keep track of the timer for a delay of a state, and of whether it has gone off. -/
def follow (s : StateId) (millis : Nat) (known : Option (TimerId × Bool)) :
    Timing → Option (TimerId × Bool)
  | armed id state length => if state = s ∧ length = millis then some (id, false) else known
  | elapsed id => known.map fun k => (k.1, k.2 || k.1 == id)
  | _ => known

/-- The timer that was armed last for a delay of a state, and whether it has gone off since. -/
def last (s : StateId) (millis : Nat) (log : List Timing) : Option (TimerId × Bool) :=
  log.foldl (follow s millis) none

/-- Since the last arming for a delay of a state, its elapsed delay was taken up. -/
def GoneOff (s : StateId) (millis : Nat) (log : List Timing) : Prop :=
  ∃ before id later, log = before ++ armed id s millis :: later ∧
    (∀ other, armed other s millis ∉ later) ∧ elapsed id ∈ later

variable {s : StateId} {millis : Nat} {log : List Timing}

@[simp] theorem last_append (a b : List Timing) :
    last s millis (a ++ b) = b.foldl (follow s millis) (last s millis a) :=
  List.foldl_append

/-- As long as no timer is armed for the same delay, only elapsed delays matter. -/
theorem foldl_follow {later : List Timing} (h : ∀ other, armed other s millis ∉ later)
    (id : TimerId) (b : Bool) :
    later.foldl (follow s millis) (some (id, b)) = some (id, b || later.contains (elapsed id)) := by
  induction later generalizing b with
  | nil => simp
  | cons x rest ih =>
    have hrest : ∀ other, armed other s millis ∉ rest := by
      intro other hmem
      exact h other (List.mem_cons_of_mem _ hmem)
    rw [List.foldl_cons]
    cases x with
    | armed other state length =>
      have hne : ¬ (state = s ∧ length = millis) := by
        rintro ⟨rfl, rfl⟩
        exact h other (List.mem_cons_self ..)
      simp only [follow, if_neg hne, ih hrest]
      simp
    | elapsed other =>
      have hbeq : (elapsed id == elapsed other) = (id == other) := by
        rw [Bool.eq_iff_iff]
        simp
      simp only [follow, Option.map_some, ih hrest, List.contains_cons, hbeq, Bool.or_assoc]
    | refused state length =>
      simp only [follow, ih hrest]
      simp
    | dismissed other =>
      simp only [follow, ih hrest]
      simp

/-- What is known of a delay is known from the last arming for it. -/
theorem exists_of_last {id : TimerId} {b : Bool} (h : last s millis log = some (id, b)) :
    ∃ before later, log = before ++ armed id s millis :: later ∧
      ∀ other, armed other s millis ∉ later := by
  induction log using List.reverseRecOn generalizing b with
  | nil => exact nomatch h
  | append_singleton log x ih =>
    -- Either the last entry is the arming that is sought, or it was known before that entry.
    by_cases hx : ∃ other, x = armed other s millis
    · obtain ⟨other, rfl⟩ := hx
      obtain ⟨rfl, -⟩ : other = id ∧ false = b := by simpa [follow] using h
      exact ⟨log, [], rfl, by simp⟩
    · have hknown : ∃ b', last s millis log = some (id, b') := by
        rw [last_append, List.foldl_cons, List.foldl_nil] at h
        cases x with
        | armed other state length =>
          have hne : ¬ (state = s ∧ length = millis) := by
            rintro ⟨rfl, rfl⟩
            exact hx ⟨other, rfl⟩
          rw [follow, if_neg hne] at h
          exact ⟨b, h⟩
        | elapsed other =>
          obtain ⟨⟨id', b'⟩, hlast, hmap⟩ := Option.map_eq_some_iff.mp h
          cases hmap
          exact ⟨b', hlast⟩
        | refused state length => exact ⟨b, h⟩
        | dismissed other => exact ⟨b, h⟩
      obtain ⟨b', hlast⟩ := hknown
      obtain ⟨before, later, hlog, hlater⟩ := ih hlast
      refine ⟨before, later ++ [x], by rw [hlog]; simp, ?_⟩
      intro other hmem
      rcases List.mem_append.mp hmem with hmem | hmem
      · exact hlater other hmem
      · exact hx ⟨other, (List.mem_singleton.mp hmem).symm⟩

theorem last_of_later {before later : List Timing} {id : TimerId}
    (hlater : ∀ other, armed other s millis ∉ later) :
    last s millis (before ++ armed id s millis :: later) =
      some (id, later.contains (elapsed id)) := by
  rw [last_append, List.foldl_cons, follow, if_pos ⟨rfl, rfl⟩, foldl_follow hlater, Bool.false_or]

theorem goneOff_iff : GoneOff s millis log ↔ ∃ id, last s millis log = some (id, true) := by
  constructor
  · rintro ⟨before, id, later, rfl, hlater, hmem⟩
    exact ⟨id, by rw [last_of_later hlater]; simpa using hmem⟩
  · rintro ⟨id, h⟩
    obtain ⟨before, later, rfl, hlater⟩ := exists_of_last h
    rw [last_of_later hlater] at h
    exact ⟨before, id, later, rfl, hlater, by simpa using h⟩

/-! ### Armings in a row -/

/-- Arming timers for other delays is of no account. -/
theorem last_append_other {ts : List Timer} (h : ∀ t ∈ ts, ¬ (t.state = s ∧ t.millis = millis)) :
    last s millis (log ++ ts.map ofTimer) = last s millis log := by
  induction ts generalizing log with
  | nil => simp
  | cons t rest ih =>
    obtain ⟨ht, hrest⟩ := List.forall_mem_cons.mp h
    rw [List.map_cons, List.append_cons, ih hrest, last_append]
    simp only [ofTimer, List.foldl_cons, List.foldl_nil, follow, if_neg ht]

/-- Of timers that are armed for different delays each is the last one. -/
theorem last_append_mem {ts : List Timer} {t : Timer}
    (h : ts.Pairwise fun t u => ¬ (u.state = t.state ∧ u.millis = t.millis)) (ht : t ∈ ts) :
    last t.state t.millis (log ++ ts.map ofTimer) = some (t.id, false) := by
  obtain ⟨a, b, rfl⟩ := List.append_of_mem ht
  have hafter := (List.pairwise_cons.mp (List.pairwise_append.mp h).2.1).1
  rw [List.map_append, List.map_cons, ← List.append_assoc, List.append_cons,
    last_append_other hafter, last_append]
  simp [ofTimer, follow]

end Timing

/-- The timer that was cancelled, and its state. -/
def Entry.cancelled? {C : Type} : Entry C → Option (TimerId × StateId)
  | timerCancelled id state => some (id, state)
  | _ => none

theorem Entry.cancelled?_eq_none {C : Type} {e : Entry C} (hdeed : e.isDeed = false) :
    e.cancelled? = none := by
  cases e with
  | timerCancelled => exact nomatch hdeed
  | _ => rfl

theorem Entry.cancelled?_of_isService {C : Type} {e : Entry C} (he : e.isService = true) :
    e.cancelled? = none := by
  cases e with
  | timerCancelled => exact nomatch he
  | _ => rfl

/-! ### The log of an interpreter -/

namespace Interpreter

variable {C : Type} {i j : Interpreter C}

/-- What was noted about timers. -/
def timings (i : Interpreter C) : List Timing := i.log Timing.of?

theorem Alike.timings (h : Alike i j) : j.timings = i.timings :=
  h.log _ fun _ he => Timing.of?_eq_none he

theorem timings_stopInvocation (i : Interpreter C) (v : Invocation) :
    (i.stopInvocation v).timings = i.timings :=
  log_stopInvocation_of_idle (fun _ he _ => Timing.of?_eq_none he)
    (fun _ => Timing.of?_of_isService) i v

theorem timings_cancelTimer (i : Interpreter C) (t : Timer) :
    (i.cancelTimer t).timings = i.timings :=
  (log_cancelTimer i t).trans (List.append_nil _)

theorem timings_leave (i : Interpreter C) (s : StateId) : (i.leave s).timings = i.timings := by
  rw [leave, cancelTimers, foldl_unchanged timings timings_cancelTimer, stopInvocations,
    foldl_unchanged timings timings_stopInvocation]

theorem timings_leaveAll (i : Interpreter C) (states : List StateId) :
    (i.leaveAll states).timings = i.timings :=
  foldl_unchanged timings timings_leave states i

theorem timings_startInvocation (s : StateId) (i : Interpreter C) (v : Invoke) :
    (startInvocation s i v).timings = i.timings :=
  log_startInvocation_of_idle (fun _ he _ => Timing.of?_eq_none he)
    (fun _ => Timing.of?_of_isService) s i v

theorem timings_foldl_armTimer (s : StateId) (i : Interpreter C) (l : List (Delay × Nat))
    (hclock : l ≠ [] → i.hasClock = true) :
    (l.foldl (armTimer s) i).timings =
      i.timings ++ (l.zipIdx i.nextTimer).map fun d => .armed ⟨d.2⟩ s d.1.1.millis := by
  induction l generalizing i with
  | nil => simp
  | cons d rest ih =>
    have hclock := hclock (by simp)
    have hnext := (armTimer_holdings s i d hclock).nextTimer_eq
    have hclock' : (armTimer s i d).hasClock = true := by
      rw [(sameShell_of_shell (shell_armTimer s i d)).hasClock, hclock]
    have hlog : (armTimer s i d).timings = i.timings ++ [.armed ⟨i.nextTimer⟩ s d.1.millis] :=
      log_armTimer s i d hclock
    rw [List.foldl_cons, ih _ fun _ => hclock', hlog, hnext]
    simp [List.zipIdx_cons]

theorem timings_enter (hclock : i.Clocked) (s : StateId) :
    (i.enter s).timings =
      i.timings ++ (i.tree.timersFrom i.nextTimer [s]).map Timing.ofTimer := by
  have hnext := (foldl_startInvocation_holdings s i (i.tree.node s).invoke).nextTimer_eq
  have hshell := sameShell_of_shell
    (foldl_unchanged shell (shell_startInvocation s) (i.tree.node s).invoke i)
  simp only [enter]
  rw [timings_foldl_armTimer s _ _ fun h => by
      rw [hshell.hasClock]
      exact hclock (i.tree.hasDelays_of_after (by simpa using h)),
    foldl_unchanged timings (timings_startInvocation s), hnext]
  simp [StateTree.timersFrom, StateTree.delays, List.zipIdx_map, Function.comp_def, Timing.ofTimer]

/-- **Entering states arms timers for all their delays.** -/
theorem timings_enterAll (hclock : i.Clocked) (states : List StateId) :
    (i.enterAll states).timings =
      i.timings ++ (i.tree.timersFrom i.nextTimer states).map Timing.ofTimer := by
  induction states generalizing i with
  | nil => simp [enterAll, StateTree.timersFrom, StateTree.delays]
  | cons s rest ih =>
    have htree := (sameShell_of_shell (shell_enter i s)).tree
    have hnext := (enter_holdings i hclock s).nextTimer_eq
    have happend := timersFrom_append i.tree i.nextTimer [s] rest
    rw [List.singleton_append] at happend
    rw [enterAll, List.foldl_cons, ← enterAll, ih (hclock.enter s), timings_enter hclock, htree,
      hnext, happend, List.map_append, List.append_assoc]

theorem timings_shift (hi : i.Numbered) (hclock : i.Clocked) (exit entry : List StateId)
    (c : Configuration) (status : Status) :
    (i.shift exit entry c status).timings =
      i.timings ++ (i.tree.timersFrom i.nextTimer entry).map Timing.ofTimer := by
  have htree := (sameShell_leaveAll i exit).tree
  have hnext := (hi.leaveAll_holdings exit).nextTimer_eq
  rw [← hnext, ← htree, ← timings_leaveAll i exit]
  show ({ i.leaveAll exit with configuration := c, status }.enterAll entry).timings = _
  apply timings_enterAll
  exact hclock.leaveAll exit

theorem timings_expire (i : Interpreter C) (id : TimerId) :
    (i.expire id).timings = i.timings ++ [.elapsed id] :=
  log_note i _

theorem timings_late (i : Interpreter C) (id : TimerId) :
    ((i.note (.dequeued (.timer id))).note (.timerWasCancelled id)).timings =
      i.timings ++ [.elapsed id, .dismissed id] :=
  log_notes i [_, _]

/-! ### Timers that are cancelled -/

/-- All timers that were cancelled, with their states. -/
def cancelled (i : Interpreter C) : List (TimerId × StateId) := i.log Entry.cancelled?

theorem Alike.cancelled (h : Alike i j) : j.cancelled = i.cancelled :=
  h.log _ fun _ he => Entry.cancelled?_eq_none he

/-- The timers of states that are left, in the order in which they are cancelled. -/
def lapsing (i : Interpreter C) (exit : List StateId) : List Timer :=
  exit.flatMap fun s => i.timers.filter fun t => t.state == s

theorem filterMap_cancelled_leaveEntries (i : Interpreter C) (s : StateId) :
    (i.leaveEntries s).filterMap Entry.cancelled? =
      (i.timers.filter fun t => t.state == s).map fun t => (t.id, t.state) := by
  have hstops : ((i.invocations.filter fun v => v.state == s).reverse.flatMap fun v =>
      (.invocationStopped v.origin v.id :: tearDownEntries v : List (Entry C))).filterMap
        Entry.cancelled? = [] := by
    rw [List.filterMap_flatMap]
    exact List.flatMap_eq_nil_iff.mpr fun v _ =>
      filterMap_stopped_of_idle (fun _ => Entry.cancelled?_of_isService) v
  rw [leaveEntries, List.filterMap_append, hstops, List.nil_append, List.filterMap_map]
  exact congrFun List.filterMap_eq_map _

theorem Numbered.cancelled_leaveAll (hi : i.Numbered) {exit : List StateId}
    (hnodup : exit.Nodup) : (i.leaveAll exit).cancelled =
      i.cancelled ++ (i.lapsing exit).map fun t => (t.id, t.state) := by
  rw [cancelled, hi.log_leaveAll hnodup fun _ he _ => Entry.cancelled?_eq_none he, lapsing,
    List.map_flatMap]
  exact congrArg _ (List.flatMap_congr fun s _ => filterMap_cancelled_leaveEntries i s)

theorem cancelled_startInvocation (s : StateId) (i : Interpreter C) (v : Invoke) :
    (startInvocation s i v).cancelled = i.cancelled :=
  log_startInvocation_of_idle (fun _ he _ => Entry.cancelled?_eq_none he)
    (fun _ => Entry.cancelled?_of_isService) s i v

theorem cancelled_armTimer (s : StateId) (i : Interpreter C) (delay : Delay × Nat) :
    (armTimer s i delay).cancelled = i.cancelled := by
  unfold armTimer
  split
  · exact (log_note i _).trans (List.append_nil _)
  · exact (log_note i _).trans (List.append_nil _)

theorem cancelled_enter (i : Interpreter C) (s : StateId) :
    (i.enter s).cancelled = i.cancelled := by
  simp only [enter]
  rw [foldl_unchanged cancelled (cancelled_armTimer s),
    foldl_unchanged cancelled (cancelled_startInvocation s)]

/-- **A shift cancels the timers of the states that are left**, and no others. -/
theorem Numbered.cancelled_shift (hi : i.Numbered) {exit : List StateId} (hnodup : exit.Nodup)
    (entry : List StateId) (c : Configuration) (status : Status) :
    (i.shift exit entry c status).cancelled =
      i.cancelled ++ (i.lapsing exit).map fun t => (t.id, t.state) := by
  rw [← hi.cancelled_leaveAll hnodup]
  exact foldl_unchanged cancelled cancelled_enter entry _

/-- They are cancelled once each. -/
theorem lapsing_perm (i : Interpreter C) {exit : List StateId} (hnodup : exit.Nodup) :
    (i.lapsing exit).Perm (i.timers.filter fun t => exit.contains t.state) :=
  flatMap_filter_perm Timer.state i.timers hnodup

end Interpreter

end Statechart
