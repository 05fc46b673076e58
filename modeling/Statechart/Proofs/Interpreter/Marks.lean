import Statechart.Proofs.Interpreter.Brackets
import Statechart.Proofs.Interpreter.Coherence
import Statechart.Proofs.Interpreter.Entries

/-!
# What the journal tells about services and host code

The journal says which services were called, which invocations were stopped, and what host code was
called when: actions, observers, and what the handles of stopped invocations hold
(`Interpreter.marks`). What is noted when an invocation is stopped depends on its handle
(`Invocation.stopMarks`). A shift stops what belongs to the states that are left and then starts
what belongs to the entered ones (`Interpreter.Numbered.marks_shift`).
-/

namespace Statechart

/-- What is noted about services and host code. -/
inductive Mark where
  /-- a service was called for an invocation -/
  | start (service : String) (origin : InvocationId)
  /-- an invocation runs no more -/
  | stop (origin : InvocationId) (id : String)
  /-- the host code that stops a service was called -/
  | tornDown (service : String) (origin : InvocationId)
  /-- the task of a service was ended -/
  | aborted (origin : InvocationId)
  /-- an action was run -/
  | ran (action event : String)
  /-- an observer was notified -/
  | observed (subscription : Nat)
  deriving DecidableEq

namespace Mark

def of? {C : Type} : Entry C → Option Mark
  | .serviceCalled service origin => some (start service origin)
  | .invocationStopped origin id => some (stop origin id)
  | .tornDown service origin => some (tornDown service origin)
  | .taskAborted origin => some (aborted origin)
  | .ran action event => some (ran action event)
  | .observed subscription _ => some (observed subscription)
  | _ => none

theorem of?_eq_none {C : Type} {e : Entry C} (hdeed : e.isDeed = false)
    (hcall : e.isCall = false) : of? e = none := by
  cases e with
  | serviceCalled => exact nomatch hdeed
  | invocationStopped => exact nomatch hdeed
  | tornDown => exact nomatch hdeed
  | taskAborted => exact nomatch hdeed
  | ran => exact nomatch hcall
  | observed => exact nomatch hcall
  | _ => rfl

/-- The mark is about a service. -/
def isService : Mark → Bool
  | ran .. | observed .. => false
  | _ => true

theorem filter_of?_eq_none {C : Type} {e : Entry C} (hdeed : e.isDeed = false) :
    (of? e).filter isService = none := by
  cases e with
  | serviceCalled => exact nomatch hdeed
  | invocationStopped => exact nomatch hdeed
  | tornDown => exact nomatch hdeed
  | taskAborted => exact nomatch hdeed
  | _ => rfl

/-- The invocation whose service was called. -/
def started? : Mark → Option InvocationId
  | start _ origin => some origin
  | _ => none

/-- The invocation that was stopped, or whose handle was. -/
def ended? : Mark → Option InvocationId
  | stop origin _ | tornDown _ origin | aborted origin => some origin
  | _ => none

end Mark

namespace Invocation

variable (v : Invocation)

/-- What is noted when the service of an invocation is called. -/
def startMark : Mark := .start v.service v.origin

/-- What is noted when the handle of an invocation is stopped: the host code that it holds is
called, or its task is ended, or it holds nothing. -/
def handleMarks : List Mark :=
  match v.handle.pending with
  | none => []
  | some .abort => [.aborted v.origin]
  | some (.callback _) => [.tornDown v.service v.origin]

/-- What is noted when an invocation is stopped, and its handle with it. -/
def stopMarks : List Mark := .stop v.origin v.id :: v.handleMarks

theorem ended?_of_mem {x : Mark} (hx : x ∈ v.stopMarks) : x.ended? = some v.origin := by
  rw [stopMarks, handleMarks] at hx
  rcases List.mem_cons.mp hx with rfl | hx
  · rfl
  · split at hx
    · cases hx
    · rw [List.mem_singleton.mp hx]
      rfl
    · rw [List.mem_singleton.mp hx]
      rfl

theorem started?_of_mem {x : Mark} (hx : x ∈ v.stopMarks) : x.started? = none := by
  have hended := v.ended?_of_mem hx
  cases x <;> first | rfl | cases hended

theorem isService_of_mem {x : Mark} (hx : x ∈ v.stopMarks) : x.isService = true := by
  have hended := v.ended?_of_mem hx
  cases x <;> first | rfl | cases hended

theorem filterMap_stopped {C : Type} :
    (.invocationStopped v.origin v.id :: Interpreter.tearDownEntries v :
      List (Entry C)).filterMap Mark.of? = v.stopMarks := by
  unfold Interpreter.tearDownEntries stopMarks handleMarks
  cases v.handle.pending with
  | none => rfl
  | some teardown => cases teardown <;> rfl

end Invocation

namespace Bracket

/-- What is noted at the ends of the bracket around an invocation: its service is called, and it is
stopped and its handle with it. -/
def marks : Bracket Invocation → List Mark
  | opens v => [v.startMark]
  | closes v => v.stopMarks

theorem marks_opens (l : List Invocation) :
    (l.map opens).flatMap marks = l.map Invocation.startMark := by
  rw [List.flatMap_map, List.map_eq_flatMap]
  rfl

theorem marks_closes (l : List Invocation) :
    (l.map closes).flatMap marks = l.flatMap Invocation.stopMarks :=
  List.flatMap_map ..

theorem isService_of_mem {w : List (Bracket Invocation)} {x : Mark} (hx : x ∈ w.flatMap marks) :
    x.isService = true := by
  obtain ⟨b, -, hx⟩ := List.mem_flatMap.mp hx
  cases b with
  | opens v =>
    rw [List.mem_singleton.mp hx]
    rfl
  | closes v => exact v.isService_of_mem hx

/-- The services that were called under a number. -/
theorem filter_started (w : List (Bracket Invocation)) (origin : InvocationId) :
    ((w.flatMap marks).filter fun x => x.started? == some origin) =
      ((opened w).filter fun v => v.origin == origin).map Invocation.startMark := by
  induction w with
  | nil => rfl
  | cons b rest ih =>
    rw [List.flatMap_cons, List.filter_append, ih]
    cases b with
    | opens v =>
      show [v.startMark].filter _ ++ _ = ((v :: opened rest).filter _).map _
      rw [List.filter_cons, List.filter_cons]
      by_cases heq : v.origin = origin <;> simp [heq, Invocation.startMark, Mark.started?]
    | closes v =>
      have hnone : (v.stopMarks.filter fun x => x.started? == some origin) = [] := by
        rw [List.filter_eq_nil_iff]
        intro x hx
        simp [v.started?_of_mem hx]
      show v.stopMarks.filter _ ++ _ = ((opened rest).filter _).map _
      rw [hnone, List.nil_append]

/-- What was stopped under a number. -/
theorem filter_ended (w : List (Bracket Invocation)) (origin : InvocationId) :
    ((w.flatMap marks).filter fun x => x.ended? == some origin) =
      ((closed w).filter fun v => v.origin == origin).flatMap Invocation.stopMarks := by
  induction w with
  | nil => rfl
  | cons b rest ih =>
    rw [List.flatMap_cons, List.filter_append, ih]
    cases b with
    | opens v => rfl
    | closes v =>
      show v.stopMarks.filter _ ++ _ = ((v :: closed rest).filter _).flatMap _
      by_cases heq : v.origin = origin
      · rw [List.filter_cons_of_pos (by simpa using heq), List.flatMap_cons,
          List.filter_eq_self.mpr]
        intro x hx
        simp [v.ended?_of_mem hx, heq]
      · rw [List.filter_cons_of_neg (by simpa using heq), List.filter_eq_nil_iff.mpr,
          List.nil_append]
        intro x hx
        simp [v.ended?_of_mem hx, heq]

end Bracket

/-- One of the invocations has this number. -/
theorem Invocation.filter_origin {l : List Invocation} (hl : (l.map Invocation.origin).Nodup)
    {v : Invocation} (hv : v ∈ l) : (l.filter fun u => u.origin == v.origin) = [v] := by
  induction l with
  | nil => cases hv
  | cons u rest ih =>
    obtain ⟨hu, hrest⟩ := List.nodup_cons.mp hl
    rcases List.mem_cons.mp hv with rfl | hv
    · rw [List.filter_cons_of_pos (by simp), List.filter_eq_nil_iff.mpr]
      intro x hx heq
      exact hu (beq_iff_eq.mp heq ▸ List.mem_map_of_mem hx)
    · have hne : u.origin ≠ v.origin := fun heq => hu (heq ▸ List.mem_map_of_mem hv)
      rw [List.filter_cons_of_neg (by simpa using hne), ih hrest hv]

/-! ### The log of an interpreter -/

namespace Interpreter

variable {C : Type} {i j : Interpreter C}

/-- What was noted about services and host code. -/
def marks (i : Interpreter C) : List Mark := i.log Mark.of?

/-- What was noted about services. -/
def services (i : Interpreter C) : List Mark := i.marks.filter Mark.isService

theorem services_eq_log (i : Interpreter C) :
    i.services = i.log fun e => (Mark.of? e).filter Mark.isService :=
  List.filter_filterMap

theorem Alike.services (h : Alike i j) : j.services = i.services := by
  rw [services_eq_log, services_eq_log]
  exact h.log _ fun _ => Mark.filter_of?_eq_none

theorem services_of_marks {ms : List Mark} (h : j.marks = i.marks ++ ms)
    (hms : ∀ x ∈ ms, x.isService = true) : j.services = i.services ++ ms := by
  rw [services, h, List.filter_append, List.filter_eq_self.mpr hms]
  rfl

/-! ### Leaving and entering -/

theorem marks_stopInvocation (i : Interpreter C) (v : Invocation) :
    (i.stopInvocation v).marks = i.marks ++ v.stopMarks := by
  rw [marks, log_stopInvocation fun _ => Mark.of?_eq_none, v.filterMap_stopped]
  rfl

theorem marks_foldl_stopInvocation (i : Interpreter C) (l : List Invocation) :
    (l.foldl stopInvocation i).marks = i.marks ++ l.flatMap Invocation.stopMarks := by
  induction l generalizing i with
  | nil => exact (List.append_nil _).symm
  | cons v rest ih =>
    rw [List.foldl_cons, ih, marks_stopInvocation, List.flatMap_cons, List.append_assoc]

/-- The invocations of states that are left, in the order in which they are stopped: the latest one
of each state first. -/
def leaving (i : Interpreter C) (exit : List StateId) : List Invocation :=
  exit.flatMap fun s => (i.invocations.filter fun v => v.state == s).reverse

/-- The invocations of states that are entered, in the order in which they are started. -/
def entering (i : Interpreter C) (entry : List StateId) : List Invocation :=
  i.machine.invocationsFrom i.emitters.size entry

theorem filterMap_leaveEntries (i : Interpreter C) (s : StateId) :
    (i.leaveEntries s).filterMap Mark.of? =
      (i.invocations.filter fun v => v.state == s).reverse.flatMap Invocation.stopMarks := by
  have htimers : ((i.timers.filter fun t => t.state == s).map fun t =>
      (.timerCancelled t.id t.state : Entry C)).filterMap Mark.of? = [] := by
    simp [Mark.of?]
  rw [leaveEntries, List.filterMap_append, List.filterMap_flatMap, htimers, List.append_nil]
  exact List.flatMap_congr fun v _ => v.filterMap_stopped

theorem Numbered.marks_leaveAll (hi : i.Numbered) {exit : List StateId} (hnodup : exit.Nodup) :
    (i.leaveAll exit).marks = i.marks ++ (i.leaving exit).flatMap Invocation.stopMarks := by
  rw [marks, hi.log_leaveAll hnodup fun _ => Mark.of?_eq_none, leaving, List.flatMap_assoc]
  exact congrArg _ (List.flatMap_congr fun s _ => filterMap_leaveEntries i s)

theorem marks_startInvocation (s : StateId) (i : Interpreter C) (v : Invoke) :
    (startInvocation s i v).marks =
      i.marks ++ [(i.machine.invocation i.emitters.size s v).startMark] := by
  have hlog := log_startInvocation (fun _ => Mark.of?_eq_none) s i v
  have hmarks : (.serviceCalled (i.tree.serviceName v.service) ⟨i.emitters.size⟩ ::
      i.begunEntries s v).filterMap Mark.of? =
      [(i.machine.invocation i.emitters.size s v).startMark] := by
    unfold begunEntries
    cases (i.startup v).task <;> rfl
  rw [marks, hlog, hmarks]
  rfl

theorem marks_foldl_startInvocation (s : StateId) (i : Interpreter C) (l : List Invoke) :
    (l.foldl (startInvocation s) i).marks = i.marks ++
      (l.zipIdx i.emitters.size).map fun v => (i.machine.invocation v.2 s v.1).startMark := by
  induction l generalizing i with
  | nil => exact (List.append_nil _).symm
  | cons v rest ih =>
    have hsize := (startInvocation_holdings s i v).size_eq
    have hmachine := (sameShell_of_shell (shell_startInvocation s i v)).machine
    rw [List.foldl_cons, ih, marks_startInvocation, hsize, hmachine, List.append_assoc]
    rfl

theorem marks_armTimer (s : StateId) (i : Interpreter C) (delay : Delay × Nat) :
    (armTimer s i delay).marks = i.marks := by
  unfold armTimer
  split
  · exact (log_note i _).trans (List.append_nil _)
  · exact (log_note i _).trans (List.append_nil _)

theorem marks_enter (i : Interpreter C) (s : StateId) :
    (i.enter s).marks = i.marks ++ (i.entering [s]).map Invocation.startMark := by
  simp only [enter]
  rw [foldl_unchanged marks (marks_armTimer s), marks_foldl_startInvocation]
  simp [entering, Machine.invocationsFrom, StateTree.invokes, List.zipIdx_map, tree,
    Function.comp_def]

theorem marks_enterAll (hclock : i.Clocked) (states : List StateId) :
    (i.enterAll states).marks = i.marks ++ (i.entering states).map Invocation.startMark := by
  induction states generalizing i with
  | nil => exact (List.append_nil _).symm
  | cons s rest ih =>
    have hmachine := (sameShell_of_shell (shell_enter i s)).machine
    have hsize := (enter_holdings i hclock s).size_eq
    have happend := invocationsFrom_append i.machine i.emitters.size [s] rest
    rw [List.singleton_append] at happend
    rw [enterAll, List.foldl_cons, ← enterAll, ih (hclock.enter s), marks_enter, entering,
      entering, entering, hmachine, hsize, happend, List.map_append, List.append_assoc]
    rfl

theorem Numbered.marks_shift (hi : i.Numbered) (hclock : i.Clocked) {exit : List StateId}
    (hnodup : exit.Nodup) (entry : List StateId) (c : Configuration) (status : Status) :
    (i.shift exit entry c status).marks = i.marks ++
      (i.leaving exit).flatMap Invocation.stopMarks ++
      (i.entering entry).map Invocation.startMark := by
  have hmachine := (sameShell_leaveAll i exit).machine
  have hsize := (hi.leaveAll_holdings exit).size_eq
  have hstart : (i.leaveAll exit).entering entry = i.entering entry := by
    rw [entering, entering, hmachine, hsize]
  rw [← hi.marks_leaveAll hnodup, ← hstart]
  show ({ i.leaveAll exit with configuration := c, status }.enterAll entry).marks = _
  apply marks_enterAll
  exact hclock.leaveAll exit

/-! ### Reactions of the host -/

/-- The host reacts by running actions, up to the first one that fails, and by being shown what
came of it. -/
theorem marks_react (i : Interpreter C) {e : Entry C} (hdeed : e.isDeed = false)
    (hcall : e.isCall = false) (event : Event) (actions : List ActionId)
    (remember : Interpreter C → History) :
    ∃ done rest, actions = done ++ rest ∧
      ((i.react e event actions remember).2 = none → rest = []) ∧
      (i.react e event actions remember).1.marks = i.marks ++
        (done.map fun a => .ran (i.tree.actionName a) event.name) ++
        i.observers.map fun o => .observed o.1 := by
  have hf : ∀ e : Entry C, e.isDeed = false → e.isCall = false → Mark.of? e = none :=
    fun _ => Mark.of?_eq_none
  obtain ⟨done, rest, hactions, hnone, hlog⟩ := log_runActions hf event (i.note e) actions
  let acted := ((i.note e).runActions event actions).1
  have hobservers : acted.observers = i.observers :=
    (sameBody_runActions event (i.note e) actions).observers
  have hnotify := log_notify hf { acted with history := remember acted, lastEvent := some event }
  have hmarks : acted.marks =
      i.marks ++ done.map fun a => .ran (i.tree.actionName a) event.name := by
    rw [marks, hlog, log_note, hf e hdeed hcall]
    simp [marks, Mark.of?, tree, note]
  refine ⟨done, rest, hactions, hnone, hnotify.trans ?_⟩
  show acted.marks ++ acted.observers.filterMap (fun o => some (Mark.observed o.1)) = _
  rw [hmarks, hobservers]
  exact congrArg _ (congrFun List.filterMap_eq_map _)

end Interpreter

end Statechart
