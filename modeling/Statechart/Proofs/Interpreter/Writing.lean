import Statechart.Proofs.Interpreter.Attempts
import Statechart.Proofs.Interpreter.Nesting

/-!
# What is written down of actions

Besides what is held (`Holds`), a journal tells which actions are run, whether one of them fails,
and what the observers are shown. This is what comes of a step.
-/

namespace Statechart

namespace Entry

variable {C : Type}

/-- The entry reports to others what came of actions. -/
def isReport : Entry C → Bool
  | actionFailed .. | observed .. => true
  | _ => false

/-- What is written down of an action that fails. -/
def ofFailure (t : StateTree) (event : Event) (f : ActionId × ActionError) : Entry C :=
  actionFailed (t.actionName f.1) event.name f.2.message

theorem of_isReport {e : Entry C} (h : e.isReport = true) :
    e.dequeued? = none ∧ e.ran? = none := by
  cases e with
  | dequeued => exact nomatch h
  | ran => exact nomatch h
  | _ => exact ⟨rfl, rfl⟩

end Entry

namespace Interpreter

variable {C : Type} {i j : Interpreter C}

/-! ### Actions and observers -/

theorem writes_act (event : Event) (i : Interpreter C) (a : ActionId) :
    Writes i [.ran (i.tree.actionName a) event.name] (i.act event a) := by
  have hran : Writes i [.ran (i.tree.actionName a) event.name]
      { i.note (.ran (i.tree.actionName a) event.name) with
        context := ((i.machine.action a).effect i.context event).1 } := writes_note i rfl
  exact hran.trans (writes_deliver _ _)

/-- **Running actions writes down those that are run**, and the failure if there is one. -/
theorem writes_runActions (event : Event) (i : Interpreter C) (actions : List ActionId) :
    Writes i
      (((i.machine.attempted event i.context actions).map fun a =>
          .ran (i.tree.actionName a) event.name) ++
        (i.machine.failure? event i.context actions).toList.map (Entry.ofFailure i.tree event))
      (i.runActions event actions).1 := by
  induction actions generalizing i with
  | nil => exact .refl i
  | cons a rest ih =>
    obtain ⟨hmachine, hcontext⟩ := act_frame event i a
    have htree : (i.act event a).tree = i.tree := congrArg Machine.tree hmachine
    have hact := writes_act event i a
    cases herror : i.machine.error? event i.context a with
    | none =>
      have hrest := hact.trans (ih (i.act event a))
      rw [hmachine, hcontext, htree] at hrest
      rw [runActions_of_none herror, Machine.attempted_of_none herror,
        Machine.failure?_of_none herror]
      exact hrest
    | some cause =>
      rw [runActions_of_some herror, Machine.attempted_of_some herror,
        Machine.failure?_of_some herror]
      exact hact.trans (writes_note _ rfl)

theorem writes_notify (i : Interpreter C) :
    Writes i (i.observers.map fun o => .observed o.1 i.snapshot) i.notify := by
  have hpresent (i' : Interpreter C) (o : Nat × Observer C) :
      Writes i' [.observed o.1 i.snapshot] (present i.snapshot i' o) :=
    (writes_note i' rfl).trans (writes_deliver _ _)
  have h := Writes.foldl hpresent i.observers i
  rwa [← List.map_eq_flatMap] at h

/-- What is told of actions once they have been run: the failure if there is one, and to the
observers what came of it. -/
def reports (i : Interpreter C) (event : Event) (actions : List ActionId) (shown : Snapshot C) :
    List (Entry C) :=
  (i.machine.failure? event i.context actions).toList.map (Entry.ofFailure i.tree event) ++
    i.observers.map fun o => .observed o.1 shown

theorem isReport_of_mem {event : Event} {actions : List ActionId} {shown : Snapshot C}
    {r : Entry C} (hr : r ∈ i.reports event actions shown) : r.isReport = true := by
  rcases List.mem_append.mp hr with hr | hr
  · obtain ⟨_, -, rfl⟩ := List.mem_map.mp hr
    rfl
  · obtain ⟨_, -, rfl⟩ := List.mem_map.mp hr
    rfl

/-- **The host reacts by running actions**; then the failure is told if there is one, and the
observers are shown what came of it. -/
theorem writes_reports (i : Interpreter C) {e : Entry C} (he : e.isTraffic = false) (event : Event)
    (actions : List ActionId) (remember : Interpreter C → History) :
    Writes i (e :: ((i.machine.attempted event i.context actions).map fun a =>
        .ran (i.tree.actionName a) event.name) ++
      i.reports event actions (i.react e event actions remember).1.snapshot)
      (i.react e event actions remember).1 := by
  let acted := ((i.note e).runActions event actions).1
  let known : Interpreter C :=
    { acted with history := remember acted, lastEvent := some event }
  have hacted : Writes i _ known := (writes_note i he).trans (writes_runActions event _ actions)
  have hshown := hacted.trans (writes_notify known)
  have hobservers : known.observers = i.observers :=
    (sameBody_runActions event (i.note e) actions).observers
  -- The observers are shown what is there when the last of them has been notified.
  have hsnapshot : known.snapshot = (i.react e event actions remember).1.snapshot :=
    (congrArg Interpreter.snapshot (still_notify known)).symm
  rw [hobservers, hsnapshot, List.append_assoc, List.append_assoc] at hshown
  exact hshown

theorem writes_react (i : Interpreter C) {e : Entry C} (he : e.isTraffic = false) (event : Event)
    (actions : List ActionId) (remember : Interpreter C → History) :
    ∃ reports : List (Entry C), (∀ r ∈ reports, r.isReport = true) ∧
      Writes i (e :: ((i.machine.attempted event i.context actions).map fun a =>
        .ran (i.tree.actionName a) event.name) ++ reports)
        (i.react e event actions remember).1 :=
  ⟨_, fun _ => isReport_of_mem, writes_reports i he event actions remember⟩

theorem react_context (i : Interpreter C) (e : Entry C) (event : Event) (actions : List ActionId)
    (remember : Interpreter C → History) :
    (i.react e event actions remember).1.context = i.machine.carry event i.context actions :=
  (untouched_notify _).context.trans (runActions_context event (i.note e) actions)

theorem react_failure (i : Interpreter C) (e : Entry C) (event : Event) (actions : List ActionId)
    (remember : Interpreter C → History) :
    (i.react e event actions remember).2 =
      (i.machine.failure? event i.context actions).map fun f =>
        .actionFailed (i.tree.actionName f.1) event.name f.2 :=
  runActions_failure event (i.note e) actions

/-! ### Steps -/

/-- What comes of actions that are run on an event. -/
structure Enacted (i : Interpreter C) (event : Event) (actions : List ActionId)
    (out : Interpreter C × Option Fault) : Prop where
  context : out.1.context = i.machine.carry event i.context actions
  failure : out.2 = (i.machine.failure? event i.context actions).map fun f =>
    .actionFailed (i.tree.actionName f.1) event.name f.2
  ran : out.1.ran = i.ran ++ (i.machine.attempted event i.context actions).map fun a =>
    (i.tree.actionName a, event.name)
  piles : Piles i out.1

theorem Holds.react (hij : Holds i j) (hmachine : j.machine = i.machine)
    (hcontext : j.context = i.context) {e : Entry C} (he : e.isTraffic = false)
    (hdequeued : e.dequeued? = none) (hran : e.ran? = none) (event : Event)
    (actions : List ActionId) (remember : Interpreter C → History) :
    Enacted i event actions (j.react e event actions remember) := by
  obtain ⟨held, hheld, hholding⟩ := hij
  obtain ⟨reports, hreports, hreact⟩ := writes_react j he event actions remember
  have htree : j.tree = i.tree := congrArg Machine.tree hmachine
  have hwrites := hheld.trans hreact
  rw [hmachine, hcontext, htree] at hwrites
  constructor
  case context => rw [react_context, hmachine, hcontext]
  case failure => rw [react_failure, hmachine, hcontext, htree]
  case ran =>
    rw [ran, hwrites.log_eq fun _ => Entry.ran?_of_isTraffic, List.filterMap_append,
      List.filterMap_append, List.filterMap_cons_none hran, List.filterMap_map,
      List.filterMap_eq_nil_iff.mpr fun e he => (Entry.of_isHolding (hholding e he)).2,
      List.filterMap_eq_nil_iff.mpr fun e he => (Entry.of_isReport (hreports e he)).2,
      List.append_nil, List.nil_append]
    exact congrArg _ (congrFun List.filterMap_eq_map _)
  case piles =>
    apply hwrites.piles
    intro n hn
    rcases List.mem_append.mp hn with hn | hn
    · exact (Entry.of_isHolding (hholding n hn)).1
    · rcases List.mem_append.mp hn with hn | hn
      · rcases List.mem_cons.mp hn with rfl | hn
        · exact hdequeued
        · obtain ⟨_, -, rfl⟩ := List.mem_map.mp hn
          rfl
      · exact (Entry.of_isReport (hreports n hn)).1

theorem take_frame (i : Interpreter C) (tr : Transition) (event : Event) :
    (i.take tr event).1.machine = i.machine ∧
    (i.take tr event).1.configuration = (i.tree.plan i.configuration tr).configuration ∧
    (i.take tr event).1.status = i.status := by
  rw [take_eq]
  exact ⟨(alike_react _ rfl _ _ _).machine.trans (shift_machine ..),
    (alike_react _ rfl _ _ _).configuration.trans (shift_configuration ..),
    (alike_react _ rfl _ _ _).status.trans (shift_status ..)⟩

theorem launch_frame (i : Interpreter C) :
    i.launch.1.machine = i.machine ∧ i.launch.1.configuration = .initial i.tree ∧
    i.launch.1.status = .running := by
  rw [launch]
  exact ⟨(alike_react _ rfl _ _ _).machine.trans (shift_machine ..),
    (alike_react _ rfl _ _ _).configuration.trans (shift_configuration ..),
    (alike_react _ rfl _ _ _).status.trans (shift_status ..)⟩

theorem take_enacted (i : Interpreter C) (tr : Transition) (event : Event) :
    Enacted i event (i.tree.plan i.configuration tr).actions (i.take tr event) := by
  rw [take_eq]
  exact (holds_shift i _ _ _ _).react (shift_machine ..) (shift_context ..) rfl rfl rfl event _ _

theorem launch_enacted (i : Interpreter C) :
    Enacted i .init i.tree.opening.actions i.launch := by
  rw [launch]
  exact (holds_shift i _ _ _ _).react (shift_machine ..) (shift_context ..) rfl rfl rfl .init _ _

end Interpreter

end Statechart
