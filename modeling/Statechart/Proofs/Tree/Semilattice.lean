import Statechart.Proofs.Tree.Meet
import Statechart.Proofs.Tree.Preorder

/-!
# The states as a semilattice

To be an ancestor is an order on the states of a tree, and a state is determined by its ancestors.
So the common ancestor of two states, whose ancestors are those that the two have in common, is
their meet in this order, and it obeys the laws of a meet (`meet_of_build`).
-/

namespace Statechart

namespace StateTree

variable {t : StateTree} {a b c : StateId}

/-! ### The laws of the common ancestor -/

theorem WellFormed.lca_comm (ht : t.WellFormed) (ha : a.index < t.size) (hb : b.index < t.size) :
    t.lca a b = t.lca b a := by
  apply ht.eq_of_ancestors
  intro x
  rw [(ht.lca_spec ha hb).2, (ht.lca_spec hb ha).2]
  exact and_comm

theorem WellFormed.lca_assoc (ht : t.WellFormed) (ha : a.index < t.size) (hb : b.index < t.size)
    (hc : c.index < t.size) : t.lca (t.lca a b) c = t.lca a (t.lca b c) := by
  obtain ⟨hab, hmemab⟩ := ht.lca_spec ha hb
  obtain ⟨hbc, hmembc⟩ := ht.lca_spec hb hc
  apply ht.eq_of_ancestors
  intro x
  rw [(ht.lca_spec hab hc).2, (ht.lca_spec ha hbc).2, hmemab, hmembc]
  exact and_assoc

theorem WellFormed.lca_self (ht : t.WellFormed) (ha : a.index < t.size) : t.lca a a = a := by
  apply ht.eq_of_ancestors
  intro x
  rw [(ht.lca_spec ha ha).2]
  exact and_self_iff

/-- The common ancestor of two states is one of them just if this one is above the other. -/
theorem WellFormed.lca_eq_right_iff (ht : t.WellFormed) (ha : a.index < t.size)
    (hb : b.index < t.size) : t.lca a b = b ↔ b ∈ t.ancestors a := by
  obtain ⟨-, hmem⟩ := ht.lca_spec ha hb
  constructor
  · intro heq
    have hself := ht.self_mem_ancestors b
    rw [← heq] at hself
    exact heq ▸ ((hmem _).mp hself).1
  · intro hba
    apply ht.eq_of_ancestors
    intro x
    rw [hmem]
    exact ⟨And.right, fun hxb => ⟨ht.ancestors_trans hxb hba, hxb⟩⟩

/-- **The common ancestor is the meet.** A state is an ancestor of the common ancestor of two states
just if it is an ancestor of both, where each state is an ancestor of itself. So it does not matter
in which order states are put together, nor whether one is put in twice, and the common ancestor of
two states is the second one just if the first one is a descendant of that. -/
theorem meet_of_build {d : Definition} {catalog : Catalog} (h : StateTree.build d catalog = .ok t)
    (ha : a.index < t.size) (hb : b.index < t.size) :
    (t.lca a b).index < t.size ∧
    (∀ x, t.isDescendant (t.lca a b) x = true ↔
      t.isDescendant a x = true ∧ t.isDescendant b x = true) ∧
    t.lca a b = t.lca b a ∧
    (∀ c : StateId, c.index < t.size → t.lca (t.lca a b) c = t.lca a (t.lca b c)) ∧
    t.lca a a = a ∧
    (t.lca a b = b ↔ t.isDescendant a b = true) := by
  have ht := StateTree.wellFormed_of_build h
  obtain ⟨hlca, hmem⟩ := ht.lca_spec ha hb
  simp only [isDescendant_iff]
  exact ⟨hlca, hmem, ht.lca_comm ha hb, fun c hc => ht.lca_assoc ha hb hc, ht.lca_self ha,
    ht.lca_eq_right_iff ha hb⟩

end StateTree

/-- The two bands of a radio have the state in common in which it is on, and nothing below it. -/
theorem radio_meet : radioTree.lca ⟨3⟩ ⟨4⟩ = ⟨2⟩ ∧
    (∀ x, radioTree.isDescendant ⟨2⟩ x = true ↔
      radioTree.isDescendant ⟨3⟩ x = true ∧ radioTree.isDescendant ⟨4⟩ x = true) ∧
    radioTree.lca (radioTree.lca ⟨3⟩ ⟨4⟩) ⟨1⟩ = radioTree.lca ⟨3⟩ (radioTree.lca ⟨4⟩ ⟨1⟩) := by
  have hon : radioTree.lca ⟨3⟩ ⟨4⟩ = ⟨2⟩ := rfl
  obtain ⟨-, hmeet, -, hassoc, -⟩ :=
    StateTree.meet_of_build (a := ⟨3⟩) (b := ⟨4⟩) build_radio (by decide) (by decide)
  rw [hon] at hmeet
  exact ⟨hon, hmeet, hassoc ⟨1⟩ (by decide)⟩

end Statechart
