import Statechart.Proofs.Interpreter.Lifecycle

/-!
# Running invocations

What runs is what the active states declare, neither more nor less, and in the same order: the
numbers of invocations rise from the root down to the leaf. The numbers alone would not tell; it
is because a step only ever leaves states at the end of the path and enters others there.
-/

namespace Statechart

namespace Interpreter

variable {C : Type} {i : Interpreter C}

theorem invokeKeys_eq (t : StateTree) (states : List StateId) :
    t.invokeKeys states = states.flatMap fun s => (t.node s).invoke.map fun v => (s, v.id) := by
  rw [StateTree.invokeKeys, StateTree.invokes, List.map_flatMap]
  simp only [List.map_map]
  rfl

theorem runningInvocations_eq_map (i : Interpreter C) :
    i.runningInvocations =
      (i.invocations.map Invocation.key).map fun k => ((i.tree.node k.1).id, k.2) := by
  rw [List.map_map]
  rfl

/-- **The running invocations are those of the active states**, from the root down to the leaf and
for each state in the order of declaration, and they were started in that order. -/
theorem Reachable.runningInvocations_eq {d : Definition} {host : Implementations C} {m : Machine C}
    (hm : Machine.build d host = .ok m) (hi : Reachable m i) (hd : i.dropped = false) :
    i.runningInvocations = (i.configuration.states.flatMap fun s =>
      (m.tree.node s).invoke.map fun v => ((m.tree.node s).id, v.id)) ∧
    (i.invocations.map fun v => (v.state, v.id)) = (i.configuration.states.flatMap fun s =>
      (m.tree.node s).invoke.map fun v => (s, v.id)) ∧
    i.invocations.Pairwise fun v w => v.origin.number < w.origin.number := by
  have hcoherent := hi.coherent hm
  have htree : i.tree = m.tree := congrArg Machine.tree hi.machine
  have hkeys := hcoherent.invocations hd
  rw [htree, invokeKeys_eq] at hkeys
  refine ⟨?_, hkeys, ?_⟩
  · rw [runningInvocations_eq_map, hkeys, htree, List.map_flatMap]
    simp only [List.map_map]
    rfl
  · exact List.pairwise_map.mp hcoherent.numbered.invocations.pairwise

end Interpreter

/-- At sea the radio, the engine, the radar and the sonar run, and they were started in this
order. -/
theorem ferryAtSea_runningInvocations : ferryAtSea.dropped = false ∧
    ferryAtSea.runningInvocations = [("ferry", "radio"), ("ferry.sea", "engine"),
      ("ferry.sea", "radar"), ("ferry.sea.calm", "sonar")] ∧
    ferryAtSea.invocations.Pairwise fun v w => v.origin.number < w.origin.number := by
  have hthere : ferryAtSea.dropped = false := by decide +kernel
  obtain ⟨hruns, -, hrising⟩ :=
    Interpreter.Reachable.runningInvocations_eq build_ferry reachable_ferryAtSea hthere
  refine ⟨hthere, ?_, hrising⟩
  rw [hruns]
  decide +kernel

end Statechart
