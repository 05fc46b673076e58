import Statechart.Proofs.Interpreter.Brackets
import Statechart.Proofs.Interpreter.Passages

/-!
# Entries and exits are balanced

The actions of a run come in lists: those on entry of a state, those on exit, and those of a
transition (`Visit`). Start, transitions and stop assemble them in their own ways, yet entries and
exits are brackets, because every passage leaves the end of the active path and enters another one.
What is open is always the active path, with the root at the bottom (`rounds_balanced`).
-/

namespace Statechart

/-- A list of actions that is run as a whole. -/
inductive Visit where
  /-- the actions on entry of a state -/
  | enter (s : StateId)
  /-- the actions on exit of a state -/
  | leave (s : StateId)
  /-- the actions of a transition -/
  | take (transition : Transition)

namespace Visit

def actions (t : StateTree) : Visit → List ActionId
  | enter s => (t.node s).entry
  | leave s => (t.node s).exit
  | take tr => tr.actions

/-- To enter a state is to open a bracket, and to leave it is to close it. -/
def bracket? : Visit → Option (Bracket StateId)
  | enter s => some (.opens s)
  | leave s => some (.closes s)
  | take _ => none

end Visit

namespace Passage

variable (t : StateTree) (p : Passage)

/-- The lists of actions of a passage, in order. -/
def visits : List Visit :=
  (p.step t).exit.map .leave ++ p.transition?.toList.map .take ++ (p.step t).entry.map .enter

theorem actions_visits : (p.visits t).flatMap (Visit.actions t) = (p.step t).actions := by
  rw [p.actions_step t, visits, List.flatMap_append, List.flatMap_append, List.flatMap_map,
    List.flatMap_map, List.flatMap_map]
  rfl

theorem brackets_visits : (p.visits t).filterMap Visit.bracket? =
    (p.step t).exit.map .closes ++ (p.step t).entry.map .opens := by
  have hleave (l : List StateId) : (l.map Visit.leave).filterMap Visit.bracket? =
      l.map .closes := by
    rw [List.filterMap_map]
    exact congrFun List.filterMap_eq_map l
  have henter (l : List StateId) : (l.map Visit.enter).filterMap Visit.bracket? =
      l.map .opens := by
    rw [List.filterMap_map]
    exact congrFun List.filterMap_eq_map l
  have htake : (p.transition?.toList.map Visit.take).filterMap Visit.bracket? = [] := by
    cases p.transition? <;> rfl
  rw [visits, List.filterMap_append, List.filterMap_append, hleave, henter, htake, List.append_nil]

end Passage

namespace Interpreter

variable {C : Type} {i j : Interpreter C}

/-- The lists of actions of a run, with the events that the actions see. -/
def visits (i : Interpreter C) : List (Visit × Event) :=
  i.passages.flatMap fun p => (p.visits i.tree).map fun v => (v, p.occasion)

/-- How states were entered and left. -/
def comings (i : Interpreter C) : List (Bracket StateId) :=
  i.visits.filterMap fun v => v.1.bracket?

/-- What the actions of the visits leave in the journal if none of them fails. -/
def told (i : Interpreter C) : List (String × String) :=
  i.visits.flatMap fun v => (v.1.actions i.tree).map fun a => (i.tree.actionName a, v.2.name)

theorem Passes.visits {p : Passage} (h : Passes i p j) :
    j.visits = i.visits ++ (p.visits i.tree).map fun v => (v, p.occasion) := by
  have htree : j.tree = i.tree := congrArg Machine.tree h.machine
  rw [Interpreter.visits, h.passages, htree, List.flatMap_append, List.flatMap_singleton]
  rfl

theorem Passes.comings {p : Passage} (h : Passes i p j) :
    j.comings = i.comings ++ ((p.step i.tree).exit.map .closes ++
      (p.step i.tree).entry.map .opens) := by
  rw [Interpreter.comings, h.visits, List.filterMap_append, List.filterMap_map,
    ← p.brackets_visits i.tree]
  rfl

theorem Passes.told {p : Passage} (h : Passes i p j) :
    j.told = i.told ++ (p.step i.tree).actions.map fun a =>
      (i.tree.actionName a, p.occasion.name) := by
  have htree : j.tree = i.tree := congrArg Machine.tree h.machine
  rw [Interpreter.told, h.visits, htree, List.flatMap_append, List.flatMap_map,
    ← p.actions_visits i.tree, List.map_flatMap]
  rfl

theorem Rests.visits (h : Rests i j) : j.visits = i.visits := by
  have htree : j.tree = i.tree := congrArg Machine.tree h.machine
  rw [Interpreter.visits, h.passages, htree]
  rfl

/-- **Entries and exits are brackets** around what is active, and if nothing fails all their actions
are run. -/
structure Balances (i : Interpreter C) : Prop where
  nests : Bracket.Nests [] i.comings i.configuration.innermostFirst
  ran : i.failures = [] → i.ran = i.told

/-- Nothing changes while no passage is made. -/
theorem Balances.rests (h : i.Balances) (hij : Rests i j) : j.Balances := by
  have htree : j.tree = i.tree := congrArg Machine.tree hij.machine
  constructor
  · rw [comings, hij.visits, hij.configuration]
    exact h.nests
  · intro hfailures
    have hran : j.ran = i.ran := hij.log _ Entry.tells_ran
    have hnone : j.failures = i.failures := hij.log _ Entry.tells_failed
    rw [hran, h.ran (hnone ▸ hfailures), told, told, hij.visits, htree]

/-- **Every passage keeps the balance**: what it closes lies on top, and it opens what it enters. -/
theorem Balances.passes {p : Passage} (h : i.Balances) (hij : Passes i p j) : j.Balances := by
  obtain ⟨kept, hbefore, hafter⟩ := hij.splice
  constructor
  · have hopen : i.configuration.innermostFirst = (p.step i.tree).exit ++ kept.reverse := by
      rw [Configuration.innermostFirst, hbefore, List.reverse_append, List.reverse_reverse]
    have hopened := Bracket.nests_opens kept.reverse (p.step i.tree).entry
    rw [← List.reverse_append, ← hafter] at hopened
    rw [hij.comings]
    exact h.nests.append (hopen ▸ (Bracket.nests_closes _ _).append hopened)
  · intro hfailures
    rw [hij.failures, List.append_eq_nil_iff, List.map_eq_nil_iff,
      Option.toList_eq_nil_iff] at hfailures
    rw [hij.ran, hij.told, h.ran hfailures.1, Machine.attempted_of_failure?_eq_none hfailures.2]

theorem balances_of_rounds {d : Definition} {host : Implementations C} {m : Machine C}
    (hm : Machine.build d host = .ok m) {context : C} {limit : Nat}
    (h : Rounds ((Interpreter.new m context).withHistoryLimit limit) i) : i.Balances :=
  Rounds.of_passages hm ⟨.done [], fun _ => rfl⟩ (fun _ _ => Balances.rests)
    (fun _ _ _ => Balances.passes) h

/-- **Actions on entry and exit are balanced** at all times in a run, from message to message. If no
action fails, the actions that were run are those of the visits, one list after another, each to its
end. Every exit closes the entry on top; what is open is the active path, the root at the bottom,
and after a stop nothing is. So a state was entered once more than it was left if it is active, and
as often otherwise. -/
theorem rounds_balanced {d : Definition} {host : Implementations C} {m : Machine C}
    (hm : Machine.build d host = .ok m) (context : C) (limit : Nat) :
    let fresh := (Interpreter.new m context).withHistoryLimit limit
    (∀ calls, Rounds fresh (fresh.after calls)) ∧
    ∀ i, Rounds fresh i →
      (i.failures = [] → i.ran = i.visits.flatMap fun v =>
        (v.1.actions m.tree).map fun a => (m.tree.actionName a, v.2.name)) ∧
      (∀ before s after, i.comings = before ++ .closes s :: after →
        ∃ others, Bracket.replay [] before = some (s :: others)) ∧
      Bracket.replay [] i.comings = some i.configuration.innermostFirst ∧
      (i.status = .stopped → Bracket.replay [] i.comings = some []) ∧
      ∀ s, i.comings.count (.opens s) =
        i.comings.count (.closes s) + if s ∈ i.configuration.states then 1 else 0 := by
  intro fresh
  refine ⟨after_rounds fresh, ?_⟩
  intro i h
  have hbalances := balances_of_rounds hm h
  have hcoherent := (chronicled_of_rounds hm h).coherent
  have htree : i.tree = m.tree := congrArg Machine.tree h.machine
  have hreplay := Bracket.replay_eq_some_iff.mpr hbalances.nests
  refine ⟨?_, ?_, hreplay, ?_, ?_⟩
  · intro hfailures
    rw [hbalances.ran hfailures, told, htree]
  · intro before s after hsplit
    obtain ⟨others, hothers⟩ := Bracket.Nests.top_of_closes (hsplit ▸ hbalances.nests)
    exact ⟨others, Bracket.replay_eq_some_iff.mpr hothers⟩
  · intro hs
    rw [hreplay, Configuration.innermostFirst, hcoherent.nothing_active (by simp [hs])]
    rfl
  · intro s
    have hcount := hbalances.nests.count s
    rw [List.count_nil, Nat.zero_add, Configuration.innermostFirst, List.count_reverse,
      hcoherent.nodup.count] at hcount
    rw [hcount, Nat.add_comm]

end Interpreter

/-! ### A house -/

/-- A house with a bed upstairs. Whoever is up there can turn round and begin again. -/
def house : Definition := .ofRoot <| Draft.toDef <|
  (((((Draft.new "house").initial "hall").entry "unlock").exit "lock").state
    (((Draft.new "hall").exit "wave").on "climb" ((TransitionDef.goto "upstairs").action "pant")))
    |>.state (((((Draft.new "upstairs").initial "bed").entry "light").exit "darken").on "turn"
      (.goto "upstairs") |>.state (((Draft.new "bed").entry "lie").exit "rise"))

/-- The host of a house. -/
def houseHost : Implementations Nat :=
  ["unlock", "lock", "wave", "pant", "light", "darken", "lie", "rise"].foldl
    (fun host name => host.action name .idle) .none

def houseMachine : Machine Nat := .built house houseHost

theorem build_house : Machine.build house houseHost = .ok houseMachine := Machine.build_built rfl

/-- A house where somebody went upstairs, turned round and went away. -/
theorem house_balanced :
    let i := ((Interpreter.new houseMachine 0).withHistoryLimit 10).after [.start 1,
      .send 5 (.named "climb"), .send 5 (.named "turn"), .stop]
    i.failures = [] ∧ i.visits.length = 14 ∧
    (i.ran = i.visits.flatMap fun v => (v.1.actions houseMachine.tree).map fun a =>
      (houseMachine.tree.actionName a, v.2.name)) ∧
    Bracket.replay [] i.comings = some [] := by
  intro i
  have hnone : i.failures = [] := by decide +kernel
  have hstopped : i.status = .stopped := by decide +kernel
  obtain ⟨hcalls, hbalanced⟩ := Interpreter.rounds_balanced build_house 0 10
  obtain ⟨hran, -, -, hover, -⟩ := hbalanced i (hcalls _)
  exact ⟨hnone, by decide +kernel, hran hnone, hover hstopped⟩

end Statechart
