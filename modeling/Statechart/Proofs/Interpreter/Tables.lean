import Statechart.Proofs.Interpreter.Outcomes
import Statechart.Proofs.Tree.Image

/-!
# Tables

Nodes refer to actions and services by number. The machine of a definition has a name and an
implementation for each of them (`Machine.complete_of_build`), and so for all that a step runs
(`Machine.Complete.step_actions`).
-/

namespace Statechart

/-- All actions that a node refers to. -/
def Node.actionIds (n : Node) : List ActionId :=
  n.entry ++ n.exit ++ n.declared.flatMap Transition.actions

namespace Machine

variable {C : Type} (m : Machine C)

/-- The action has a name and is bound. -/
def HasAction (a : ActionId) : Prop :=
  a.index < m.tree.actions.length ∧ a.index < m.actions.size

instance (a : ActionId) : Decidable (m.HasAction a) := inferInstanceAs (Decidable (_ ∧ _))

/-- The service has a name and is bound. -/
def HasService (s : ServiceId) : Prop :=
  s.index < m.tree.services.length ∧ s.index < m.services.size

instance (s : ServiceId) : Decidable (m.HasService s) := inferInstanceAs (Decidable (_ ∧ _))

/-- The machine has all that its nodes refer to. -/
structure Complete : Prop where
  tree : m.tree.WellFormed
  actions : ∀ s, ∀ a ∈ (m.tree.node s).actionIds, m.HasAction a
  services : ∀ s, ∀ v ∈ (m.tree.node s).invoke, m.HasService v.service

end Machine

namespace Layout

variable {l : Layout} {s : StateId}

theorem lt_of_mem_actionIds {actions names : List String} {a : ActionId}
    (ha : a ∈ actionIds actions names) (h : ∀ name ∈ names, name ∈ actions) :
    a.index < actions.length := by
  obtain ⟨name, hname, rfl⟩ := List.mem_map.mp ha
  exact List.idxOf_lt_length_of_mem (h name hname)

/-- What a node declares was declared for the state, together with its actions. -/
theorem exists_decl_of_mem_declared {actions services : List String} {tr : Transition}
    (h : tr ∈ (l.node actions services s).declared) :
    ∃ decl, tr = l.transition actions s decl ∧
      ∀ name ∈ decl.actions.items, name ∈ (l.slot s).body.actionNames := by
  simp only [Node.declared, node, List.mem_append, List.mem_flatten, List.mem_map] at h
  rcases h with ⟨trs, htrs, htr⟩ | ⟨d, hd, rfl⟩
  · simp only [Dict.values, Dict.mapValues, List.map_map, List.mem_map, Function.comp] at htrs
    obtain ⟨e, he, rfl⟩ := htrs
    obtain ⟨decl, hdecl, rfl⟩ := List.mem_map.mp htr
    have hdeclares : (l.slot s).body.Declares "" e.1 decl := .inl ⟨e.2, he, hdecl⟩
    exact ⟨decl, rfl, hdeclares.mem.2⟩
  · rw [delays, Delay.mem_sort] at hd
    obtain ⟨e, he, hread⟩ := List.mem_filterMap.mp hd
    obtain ⟨millis, hmillis, rfl⟩ := Option.map_eq_some_iff.mp hread
    have hdeclares : (l.slot s).body.Declares "" (Event.delayName millis "") e.2 :=
      .inr ⟨e.1, millis, he, readMillis?_eq_some.mp hmillis, rfl⟩
    exact ⟨e.2, rfl, hdeclares.mem.2⟩

theorem lt_of_mem_nodeActions {a : ActionId} (ha : a ∈ (l.toTree.node s).actionIds) :
    a.index < l.toTree.actions.length := by
  rcases Nat.lt_or_ge s.index l.slots.size with hs | hs
  · have hnames : ∀ name ∈ (l.slot s).body.actionNames, name ∈ l.actions := fun name hname =>
      mem_actions.mpr ⟨_, mem_slots hs, hname⟩
    rw [node_toTree hs, Node.actionIds, List.mem_append, List.mem_append] at ha
    rcases ha with (ha | ha) | ha
    · exact lt_of_mem_actionIds ha fun name hname =>
        hnames name (by simp [StateBody.actionNames, hname])
    · exact lt_of_mem_actionIds ha fun name hname =>
        hnames name (by simp [StateBody.actionNames, hname])
    · obtain ⟨tr, htr, ha⟩ := List.mem_flatMap.mp ha
      obtain ⟨decl, rfl, hdecl⟩ := exists_decl_of_mem_declared htr
      exact lt_of_mem_actionIds ha fun name hname => hnames name (hdecl name hname)
  · rw [node_toTree_of_ge hs] at ha
    cases ha

theorem lt_of_mem_nodeInvoke {v : Invoke} (hv : v ∈ (l.toTree.node s).invoke) :
    v.service.index < l.toTree.services.length := by
  rcases Nat.lt_or_ge s.index l.slots.size with hs | hs
  · rw [node_toTree hs] at hv
    obtain ⟨decl, hdecl, rfl⟩ := List.mem_map.mp hv
    have hname : decl.service ∈ (l.slot s).body.serviceNames := List.mem_map_of_mem hdecl
    exact List.idxOf_lt_length_of_mem (mem_services.mpr ⟨_, mem_slots hs, hname⟩)
  · rw [node_toTree_of_ge hs] at hv
    cases hv

end Layout

namespace Machine

variable {C : Type}

/-- **A machine that was built has all that its nodes refer to.** -/
theorem complete_of_build {d : Definition} {host : Implementations C} {m : Machine C}
    (h : build d host = .ok m) : m.Complete := by
  obtain ⟨htree, ⟨actions, hactions, hm⟩, services, hservices, hm'⟩ := parts_of_build h
  have hbound : m.actions.size = m.tree.actions.length := by
    rw [hm, List.size_toArray, length_of_bindAll hactions]
  have hbound' : m.services.size = m.tree.services.length := by
    rw [hm', List.size_toArray, length_of_bindAll hservices]
  constructor
  case tree => exact wellFormed_of_build h
  case actions =>
    intro s a ha
    rw [HasAction, hbound, and_self, htree]
    exact Layout.lt_of_mem_nodeActions (htree ▸ ha)
  case services =>
    intro s v hv
    rw [HasService, hbound', and_self, htree]
    exact Layout.lt_of_mem_nodeInvoke (htree ▸ hv)

theorem Complete.entry {m : Machine C} (hm : m.Complete) {states : List StateId} :
    ∀ a ∈ states.flatMap fun s => (m.tree.node s).entry, m.HasAction a := by
  intro a ha
  obtain ⟨s, -, ha⟩ := List.mem_flatMap.mp ha
  exact hm.actions s a (List.mem_append_left _ (List.mem_append_left _ ha))

theorem Complete.exit {m : Machine C} (hm : m.Complete) {states : List StateId} :
    ∀ a ∈ states.flatMap fun s => (m.tree.node s).exit, m.HasAction a := by
  intro a ha
  obtain ⟨s, -, ha⟩ := List.mem_flatMap.mp ha
  exact hm.actions s a (List.mem_append_left _ (List.mem_append_right _ ha))

/-- The actions of a step are there, those of the states it leaves and enters included. -/
theorem Complete.step_actions {m : Machine C} (hm : m.Complete) {c : Configuration} {s : StateId}
    {tr : Transition} (htr : tr ∈ (m.tree.node s).declared) :
    ∀ a ∈ (m.tree.plan c tr).actions, m.HasAction a := by
  have hown : ∀ a ∈ tr.actions, m.HasAction a := fun a ha =>
    hm.actions s a (List.mem_append_right _ (List.mem_flatMap.mpr ⟨tr, htr, ha⟩))
  intro a ha
  cases hg : tr.target with
  | none =>
    simp only [StateTree.plan, hg] at ha
    exact hown a ha
  | some g =>
    simp only [StateTree.plan, hg, List.mem_append] at ha
    rcases ha with (ha | ha) | ha
    · exact hm.exit a ha
    · exact hown a ha
    · exact hm.entry a ha

end Machine

end Statechart
