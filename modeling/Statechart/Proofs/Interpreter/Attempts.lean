import Statechart.Definition.Builder
import Statechart.Proofs.Interpreter.Frame

/-!
# Running actions

Actions are run one after another, each on the context that the one before left behind, up to the
first one that fails (`Machine.attempted`). What one that fails did to the context stays. Which
actions are run, what comes of the context and what is said about the failure depends on the
actions alone, neither on the queue nor on what they send (`runActions_context`,
`runActions_failure`).
-/

namespace Statechart

namespace Machine

variable {C : Type} (m : Machine C) (event : Event)

/-- The context after an action, be it that it failed. -/
def effect (c : C) (a : ActionId) : C := ((m.action a).effect c event).1

/-- Why an action fails, if it does. -/
def error? (c : C) (a : ActionId) : Option ActionError := ((m.action a).effect c event).2

/-- The actions that are run: all of them, or those up to the first one that fails. -/
def attempted : C → List ActionId → List ActionId
  | _, [] => []
  | c, a :: rest =>
    match m.error? event c a with
    | none => a :: attempted (m.effect event c a) rest
    | some _ => [a]

/-- The context after the actions that are run. -/
def carry (c : C) (actions : List ActionId) : C :=
  (m.attempted event c actions).foldl (m.effect event) c

/-- The first action that fails, and why. -/
def failure? : C → List ActionId → Option (ActionId × ActionError)
  | _, [] => none
  | c, a :: rest =>
    match m.error? event c a with
    | none => failure? (m.effect event c a) rest
    | some cause => some (a, cause)

/-- Of the actions those in `done` succeed, and the next one, which is `a`, fails. -/
structure Stumbles (c : C) (actions done : List ActionId) (a : ActionId) (cause : ActionError) :
    Prop where
  split : ∃ after, actions = done ++ a :: after
  succeed : ∀ before b, before ++ [b] <+: done →
    m.error? event (before.foldl (m.effect event) c) b = none
  fails : m.error? event (done.foldl (m.effect event) c) a = some cause
  attempted : m.attempted event c actions = done ++ [a]

variable {m event} {c : C} {a : ActionId} {rest : List ActionId}

theorem attempted_of_none (h : m.error? event c a = none) :
    m.attempted event c (a :: rest) = a :: m.attempted event (m.effect event c a) rest := by
  simp only [Machine.attempted, h]

theorem attempted_of_some {cause : ActionError} (h : m.error? event c a = some cause) :
    m.attempted event c (a :: rest) = [a] := by
  simp only [Machine.attempted, h]

theorem failure?_of_none (h : m.error? event c a = none) :
    m.failure? event c (a :: rest) = m.failure? event (m.effect event c a) rest := by
  simp only [failure?, h]

theorem failure?_of_some {cause : ActionError} (h : m.error? event c a = some cause) :
    m.failure? event c (a :: rest) = some (a, cause) := by
  simp only [failure?, h]

theorem carry_of_none (h : m.error? event c a = none) :
    m.carry event c (a :: rest) = m.carry event (m.effect event c a) rest := by
  rw [carry, attempted_of_none h, List.foldl_cons, carry]

theorem carry_of_some {cause : ActionError} (h : m.error? event c a = some cause) :
    m.carry event c (a :: rest) = m.effect event c a := by
  rw [carry, attempted_of_some h, List.foldl_cons, List.foldl_nil]

/-- If none fails all are run. -/
theorem attempted_of_failure?_eq_none {actions : List ActionId}
    (h : m.failure? event c actions = none) : m.attempted event c actions = actions := by
  induction actions generalizing c with
  | nil => rfl
  | cons b rest ih =>
    cases herror : m.error? event c b with
    | none =>
      rw [failure?_of_none herror] at h
      rw [attempted_of_none herror, ih h]
    | some cause =>
      rw [failure?_of_some herror] at h
      cases h

theorem Stumbles.cons {done : List ActionId} {b : ActionId} {cause : ActionError}
    (hnone : m.error? event c a = none)
    (h : m.Stumbles event (m.effect event c a) rest done b cause) :
    m.Stumbles event c (a :: rest) (a :: done) b cause where
  split := by
    obtain ⟨after, hafter⟩ := h.split
    exact ⟨after, by rw [hafter, List.cons_append]⟩
  succeed := by
    intro before x hbefore
    cases before with
    | nil =>
      obtain ⟨rfl, -⟩ := List.cons_prefix_cons.mp hbefore
      exact hnone
    | cons y before =>
      obtain ⟨rfl, hrest⟩ := List.cons_prefix_cons.mp hbefore
      exact h.succeed before x hrest
  fails := h.fails
  attempted := by rw [attempted_of_none hnone, h.attempted, List.cons_append]

/-- **The first failure ends it**: all actions before it succeed, and none after it is run. -/
theorem stumbles_of_failure? {actions : List ActionId} {cause : ActionError}
    (h : m.failure? event c actions = some (a, cause)) :
    ∃ done, m.Stumbles event c actions done a cause := by
  -- for every context, since each action passes on another one
  induction actions generalizing c with
  | nil => exact nomatch h
  | cons b rest ih =>
    cases herror : m.error? event c b with
    | none =>
      rw [failure?_of_none herror] at h
      obtain ⟨done, hdone⟩ := ih h
      exact ⟨b :: done, hdone.cons herror⟩
    | some error =>
      rw [failure?_of_some herror] at h
      cases h
      exact ⟨[], ⟨rest, rfl⟩, by simp, herror, attempted_of_some herror⟩

end Machine

namespace Interpreter

variable {C : Type}

theorem act_frame (event : Event) (i : Interpreter C) (a : ActionId) :
    (i.act event a).machine = i.machine ∧
    (i.act event a).context = i.machine.effect event i.context a := by
  simp only [act]
  rw [(untouched_deliver _ _).machine, (untouched_deliver _ _).context]
  exact ⟨rfl, rfl⟩

theorem runActions_of_none {event : Event} {i : Interpreter C} {a : ActionId}
    (h : i.machine.error? event i.context a = none) (rest : List ActionId) :
    i.runActions event (a :: rest) = (i.act event a).runActions event rest := by
  rw [Machine.error?] at h
  simp only [runActions_cons, h]

theorem runActions_of_some {event : Event} {i : Interpreter C} {a : ActionId} {cause : ActionError}
    (h : i.machine.error? event i.context a = some cause) (rest : List ActionId) :
    i.runActions event (a :: rest) =
      ((i.act event a).note (.actionFailed (i.tree.actionName a) event.name cause.message),
        some (.actionFailed (i.tree.actionName a) event.name cause)) := by
  rw [Machine.error?] at h
  simp only [runActions_cons, h]

/-- **The context is what the actions make of it**, up to the first one that fails. -/
theorem runActions_context (event : Event) (i : Interpreter C) (actions : List ActionId) :
    (i.runActions event actions).1.context = i.machine.carry event i.context actions := by
  induction actions generalizing i with
  | nil => rfl
  | cons a rest ih =>
    obtain ⟨hmachine, hcontext⟩ := act_frame event i a
    cases herror : i.machine.error? event i.context a with
    | none =>
      rw [runActions_of_none herror, ih, hmachine, hcontext, Machine.carry_of_none herror]
    | some cause =>
      rw [runActions_of_some herror, Machine.carry_of_some herror]
      exact hcontext

/-- **The failure that is told is that of the first action that fails.** -/
theorem runActions_failure (event : Event) (i : Interpreter C) (actions : List ActionId) :
    (i.runActions event actions).2 = (i.machine.failure? event i.context actions).map fun f =>
      .actionFailed (i.tree.actionName f.1) event.name f.2 := by
  induction actions generalizing i with
  | nil => rfl
  | cons a rest ih =>
    obtain ⟨hmachine, hcontext⟩ := act_frame event i a
    have htree : (i.act event a).tree = i.tree := congrArg Machine.tree hmachine
    cases herror : i.machine.error? event i.context a with
    | none =>
      rw [runActions_of_none herror, ih, hmachine, hcontext, htree,
        Machine.failure?_of_none herror]
    | some cause =>
      rw [runActions_of_some herror, Machine.failure?_of_some herror]
      rfl

end Interpreter

/-! ### A fuse -/

/-- A fuse. What blows it is counted, melting fails, and after a while it is whole again. -/
def fuse : Definition := .ofRoot <| Draft.toDef <|
  (((Draft.new "fuse").initial "whole").state
    ((Draft.new "whole").on "surge" (((TransitionDef.goto "blown").action "count").action "melt")))
    |>.state (((Draft.new "blown").entry "warn").after (.ofMillis 50) (.goto "whole"))

/-- The host of a fuse. -/
def fuseHost : Implementations Nat :=
  ((Implementations.none.action "count" { Action.idle with effect := fun n _ => (n + 1, none) }
    ).action "melt" { Action.idle with effect := fun n _ => (n + 10, some ⟨"molten"⟩) }
    ).action "warn" { Action.idle with effect := fun n _ => (n + 100, none) }

def fuseMachine : Machine Nat := .built fuse fuseHost

theorem build_fuse : Machine.build fuse fuseHost = .ok fuseMachine := Machine.build_built rfl

end Statechart
