import Statechart.Proofs.Tree.Semilattice

/-!
# Walks

A walk goes on from state to state as long as there is a next one (`Walk`). Nothing bounds it, so a
walk that is there has come to an end. In a tree that was built every walk along parents ends at the
root and every walk along initial children at a leaf, and the search for a common ancestor brings
its two states to one depth and then to one state. So the bounds of these walks in a tree are never
reached: what they come to is what the unbounded walks come to (`StateTree.walks_of_build`).
-/

namespace Statechart

/-- The walk along `next` from `s` goes through the states of `l`, and it ends in `z`, from which
there is no next one. -/
inductive Walk {σ : Type} (next : σ → Option σ) : σ → List σ → σ → Prop
  | stop {s : σ} : next s = none → Walk next s [s] s
  | step {s s' z : σ} {l : List σ} : next s = some s' → Walk next s' l z → Walk next s (s :: l) z

/-- The walk along `next` from `s` ends in `z` after `n` steps. -/
def Ends {σ : Type} (next : σ → Option σ) (n : Nat) (s z : σ) : Prop :=
  ∃ l, Walk next s l z ∧ l.length = n + 1

section Walk

variable {σ τ : Type} {next : σ → Option σ} {s s' z : σ} {l : List σ} {n : Nat}

namespace Walk

theorem head?_eq (h : Walk next s l z) : l.head? = some s := by
  cases h <;> rfl

theorem next_end (h : Walk next s l z) : next z = none := by
  induction h with
  | stop hnone => exact hnone
  | step _ _ ih => exact ih

theorem getLast?_eq (h : Walk next s l z) : l.getLast? = some z := by
  induction h with
  | stop _ => rfl
  | step _ hrest ih =>
    cases hrest with
    | stop _ => rfl
    | step _ _ => exact ih

/-- A walk stops at the first state from which there is no next one, and not before. -/
theorem next_eq_none_iff (h : Walk next s l z) {a : σ} (ha : a ∈ l) : next a = none ↔ a = z := by
  induction h with
  | stop hnone => simp [List.mem_singleton.mp ha, hnone]
  | step hnext hrest ih =>
    rcases List.mem_cons.mp ha with rfl | ha
    · refine iff_of_false (by simp [hnext]) ?_
      rintro rfl
      cases hnext.symm.trans hrest.next_end
    · exact ih ha

theorem isChain (h : Walk next s l z) : l.IsChain fun a b => next a = some b := by
  induction h with
  | stop _ => exact List.isChain_singleton _
  | step hnext hrest ih =>
    refine List.isChain_cons.mpr ⟨fun b hb => ?_, ih⟩
    rw [hrest.head?_eq] at hb
    cases hb
    exact hnext

theorem map {next' : τ → Option τ} {f : σ → τ} (hf : ∀ s, next' (f s) = (next s).map f)
    (h : Walk next s l z) : Walk next' (f s) (l.map f) (f z) := by
  induction h with
  | stop hnone => exact .stop (by rw [hf, hnone]; rfl)
  | step hnext _ ih => exact .step (by rw [hf, hnext]; rfl) ih

end Walk

namespace Ends

theorem stop (h : next s = none) : Ends next 0 s s := ⟨[s], .stop h, rfl⟩

theorem step (hnext : next s = some s') (h : Ends next n s' z) : Ends next (n + 1) s z := by
  obtain ⟨l, hwalk, hlength⟩ := h
  exact ⟨s :: l, .step hnext hwalk, by rw [List.length_cons, hlength]⟩

theorem map {next' : τ → Option τ} {f : σ → τ} (hf : ∀ s, next' (f s) = (next s).map f)
    (h : Ends next n s z) : Ends next' n (f s) (f z) := by
  obtain ⟨l, hwalk, hlength⟩ := h
  exact ⟨l.map f, hwalk.map hf, by rw [List.length_map, hlength]⟩

end Ends

end Walk

namespace StateTree

variable {t : StateTree} {a b : StateId}

/-! ### The walks of a tree -/

/-- Up from the first of two states while it is the deeper one. -/
def raiseFirst (t : StateTree) : StateId × StateId → Option (StateId × StateId)
  | (a, b) => if (t.node b).depth < (t.node a).depth then some (t.parentOrSelf a, b) else none

/-- Up from the second of two states while it is the deeper one. -/
def raiseSecond (t : StateTree) : StateId × StateId → Option (StateId × StateId)
  | (a, b) => if (t.node a).depth < (t.node b).depth then some (a, t.parentOrSelf b) else none

/-- Up from both states while they are different. -/
def raiseBoth (t : StateTree) : StateId × StateId → Option (StateId × StateId)
  | (a, b) => if a = b then none else some (t.parentOrSelf a, t.parentOrSelf b)

/-- What the walk up from a state comes to. -/
structure Ascent (t : StateTree) (a : StateId) : Prop where
  walk : Walk (fun s => (t.node s).parent) a (t.ancestors a) t.root
  length : (t.ancestors a).length = (t.node a).depth + 1
  nodup : (t.ancestors a).Nodup
  /-- each state is the parent of the one before -/
  chain : (t.ancestors a).IsChain fun s p => (t.node s).parent = some p
  last : (t.ancestors a).getLast? = some t.root

/-- What the walk down from a state along initial children comes to. -/
structure Descent (t : StateTree) (a : StateId) : Prop where
  walk : Walk (fun s => (t.node s).initial) a (t.initialPath a) (t.bottom a)
  first : (t.initialPath a).head? = some a
  nodup : (t.initialPath a).Nodup
  /-- each state is a child of the one before, and declared as its initial one -/
  chain : (t.initialPath a).IsChain fun s c =>
    (t.node s).initial = some c ∧ c ∈ (t.node s).children
  last : (t.initialPath a).getLast? = some (t.bottom a)
  /-- only the last state is a leaf -/
  leaf_iff : ∀ s ∈ t.initialPath a, (t.node s).isLeaf = true ↔ s = t.bottom a

/-- How the search for the common ancestor of `a` and `b` goes: from one of them up to the depth of
the other, and then from both up to one state. -/
structure Search (t : StateTree) (a b a' b' : StateId) : Prop where
  first : Ends t.raiseFirst ((t.node a).depth - (t.node b).depth) (a, b) (a', b)
  second : Ends t.raiseSecond ((t.node b).depth - (t.node a).depth) (a', b) (a', b')
  level : (t.node a').depth = (t.node b').depth
  both : Ends t.raiseBoth ((t.node a').depth - (t.node (t.lca a b)).depth) (a', b')
    (t.lca a b, t.lca a b)

/-! ### Up to the root -/

theorem WellFormed.walk_ancestors (ht : t.WellFormed) (ha : a.index < t.size) :
    Walk (fun s => (t.node s).parent) a (t.ancestors a) t.root := by
  induction a using ht.upward with
  | top s hp =>
    rw [ancestors_of_parent_none hp, ← ht.eq_root ha hp]
    exact .stop hp
  | below s p hp ih =>
    have hlt := ht.parent_lt s p hp
    rw [ht.ancestors_cons hp]
    exact .step hp (ih (by omega))

/-! ### Down to a leaf -/

theorem WellFormed.walk_initialPath (ht : t.WellFormed) (a : StateId) :
    Walk (fun s => (t.node s).initial) a (t.initialPath a) (t.bottom a) := by
  induction a using ht.downward with
  | leaf s hc =>
    rw [initialPath_of_initial_none hc, bottom_of_initial_none hc]
    exact .stop hc
  | above s c hc ih =>
    rw [ht.initialPath_cons hc, ht.bottom_cons hc]
    exact .step hc ih

/-- The numbers grow on the way down, so no state is passed twice. -/
theorem WellFormed.nodup_initialPath (ht : t.WellFormed) (a : StateId) :
    (t.initialPath a).Nodup := by
  have hgrow : ((t.initialPath a).map StateId.index).IsChain (· < ·) := by
    rw [List.isChain_map]
    exact (ht.walk_initialPath a).isChain.imp fun _ _ hc => (ht.initial_lt hc).1
  exact .of_map _ ((List.isChain_iff_pairwise.mp hgrow).imp Nat.ne_of_lt)

theorem WellFormed.isLeaf_iff (ht : t.WellFormed) :
    (t.node a).isLeaf = true ↔ (t.node a).initial = none := by
  rw [Node.isLeaf, List.isEmpty_iff]
  constructor
  · intro hleaf
    cases hc : (t.node a).initial with
    | none => rfl
    | some c => exact absurd (hleaf ▸ ht.initial_mem a c hc) List.not_mem_nil
  · exact ht.initial_none a

/-! ### Up to one state -/

theorem raiseSecond_swap (p : StateId × StateId) :
    t.raiseSecond p.swap = (t.raiseFirst p).map Prod.swap := by
  obtain ⟨a, b⟩ := p
  simp only [raiseFirst, raiseSecond, Prod.swap_prod_mk]
  split <;> rfl

/-- The first of two states goes up by as much as it is deeper. -/
theorem WellFormed.ends_raiseFirst (ht : t.WellFormed) (b : StateId) (fuel : Nat)
    (ha : a.index < t.size) (hfuel : (t.node a).depth ≤ (t.node b).depth + fuel) :
    Ends t.raiseFirst ((t.node a).depth - (t.node b).depth) (a, b)
      (t.raiseTo (t.node b).depth fuel a, b) := by
  induction fuel generalizing a with
  | zero =>
    rw [Nat.sub_eq_zero_of_le (by omega)]
    exact .stop (if_neg (by omega))
  | succ fuel ih =>
    by_cases hd : (t.node b).depth < (t.node a).depth
    · obtain ⟨p, hp⟩ := ht.exists_parent_of_depth ha (by omega)
      have hlt := ht.parent_lt a p hp
      have hdp := ht.depth_child a p hp
      have hrest := ih (a := p) (by omega) (by omega)
      have hsteps : (t.node a).depth - (t.node b).depth =
          (t.node p).depth - (t.node b).depth + 1 := by omega
      rw [raiseTo, if_pos hd, parentOrSelf_of_parent hp, hsteps]
      refine .step ?_ hrest
      rw [raiseFirst, if_pos hd, parentOrSelf_of_parent hp]
    · rw [raiseTo, if_neg hd, Nat.sub_eq_zero_of_le (by omega)]
      exact .stop (if_neg hd)

theorem WellFormed.ends_raiseSecond (ht : t.WellFormed) (a : StateId) (fuel : Nat)
    (hb : b.index < t.size) (hfuel : (t.node b).depth ≤ (t.node a).depth + fuel) :
    Ends t.raiseSecond ((t.node b).depth - (t.node a).depth) (a, b)
      (a, t.raiseTo (t.node a).depth fuel b) :=
  (ht.ends_raiseFirst a fuel hb hfuel).map (f := Prod.swap) raiseSecond_swap

/-- Two states of one depth go up until they are the same one. -/
theorem WellFormed.ends_raiseBoth (ht : t.WellFormed) (fuel : Nat) (ha : a.index < t.size)
    (hb : b.index < t.size) (hd : (t.node a).depth = (t.node b).depth)
    (hfuel : (t.node a).depth ≤ fuel) :
    ∃ n, (t.node a).depth = (t.node (t.meet fuel a b)).depth + n ∧
      Ends t.raiseBoth n (a, b) (t.meet fuel a b, t.meet fuel a b) := by
  induction fuel generalizing a b with
  | zero =>
    -- At depth zero both states are the root.
    have hab : a = b :=
      (ht.eq_root_of_depth ha (by omega)).trans (ht.eq_root_of_depth hb (by omega)).symm
    rw [meet, hab]
    exact ⟨0, rfl, .stop (if_pos rfl)⟩
  | succ fuel ih =>
    by_cases hab : a = b
    · rw [meet, if_pos hab, hab]
      exact ⟨0, rfl, .stop (if_pos rfl)⟩
    · obtain ⟨p, q, hp, hq, hpt, hqt, hdp, hdpq⟩ := ht.exists_parents ha hb hd hab
      obtain ⟨n, hn, hrest⟩ := ih hpt hqt hdpq (by omega)
      rw [meet, if_neg hab, parentOrSelf_of_parent hp, parentOrSelf_of_parent hq]
      refine ⟨n + 1, by omega, .step ?_ hrest⟩
      rw [raiseBoth, if_neg hab, parentOrSelf_of_parent hp, parentOrSelf_of_parent hq]

/-! ### All walks end -/

theorem WellFormed.ascent (ht : t.WellFormed) (ha : a.index < t.size) : t.Ascent a where
  walk := ht.walk_ancestors ha
  length := ht.length_ancestors ha
  nodup := ht.nodup_ancestors a
  chain := (ht.walk_ancestors ha).isChain
  last := (ht.walk_ancestors ha).getLast?_eq

theorem WellFormed.descent (ht : t.WellFormed) (a : StateId) : t.Descent a where
  walk := ht.walk_initialPath a
  first := (ht.walk_initialPath a).head?_eq
  nodup := ht.nodup_initialPath a
  chain := (ht.walk_initialPath a).isChain.imp fun s c hc => ⟨hc, ht.initial_mem s c hc⟩
  last := (ht.walk_initialPath a).getLast?_eq
  leaf_iff _ hs := ht.isLeaf_iff.trans ((ht.walk_initialPath a).next_eq_none_iff hs)

theorem WellFormed.search (ht : t.WellFormed) (ha : a.index < t.size) (hb : b.index < t.size) :
    ∃ a' b', t.Search a b a' b' := by
  -- No state is as deep as there are states, so no bound is reached.
  have hda := ht.depth_le_index ha
  have hdb := ht.depth_le_index hb
  have hfirst := ht.ends_raiseFirst b t.size ha (by omega)
  obtain ⟨ha', hda', -⟩ := ht.raiseTo_spec (t.node b).depth t.size ha (by omega)
  generalize hraised : t.raiseTo (t.node b).depth t.size a = a' at hfirst ha' hda'
  have hsecond := ht.ends_raiseSecond a' t.size hb (by omega)
  obtain ⟨hb', hdb', -⟩ := ht.raiseTo_spec (t.node a').depth t.size hb (by omega)
  generalize hraised' : t.raiseTo (t.node a').depth t.size b = b' at hsecond hb' hdb'
  obtain ⟨n, hn, hboth⟩ := ht.ends_raiseBoth t.size ha' hb' (by omega) (by omega)
  have hmeet : t.meet t.size a' b' = t.lca a b := by
    rw [lca, hraised, hraised']
  have hsteps : (t.node b).depth - (t.node a).depth = (t.node b).depth - (t.node a').depth := by
    omega
  rw [hmeet] at hn hboth
  refine ⟨a', b', hfirst, ?_, by omega, ?_⟩
  · rwa [hsteps]
  · rwa [hn, Nat.add_sub_cancel_left]

/-- **All walks through a tree that was built end.** The walk up from a state comes to the root and
takes as many steps as the state is deep. The walk down along initial children comes to a leaf, and
no state before it is one. The search for a common ancestor brings two states to one depth and then
to one state, which is their common ancestor. -/
theorem walks_of_build {d : Definition} {catalog : Catalog}
    (h : StateTree.build d catalog = .ok t) (ha : a.index < t.size) (hb : b.index < t.size) :
    t.Ascent a ∧ t.Descent a ∧ ∃ a' b', t.Search a b a' b' := by
  have ht := StateTree.wellFormed_of_build h
  exact ⟨ht.ascent ha, ht.descent a, ht.search ha hb⟩

end StateTree

/-- Up from the band that a radio does not start with, down to the one it does start with, and up
from a band and from where the radio is off. -/
theorem radio_walks :
    (radioTree.ancestors ⟨3⟩ = [⟨3⟩, ⟨2⟩, ⟨0⟩] ∧ radioTree.Ascent ⟨3⟩) ∧
    (radioTree.initialPath ⟨2⟩ = [⟨2⟩, ⟨4⟩] ∧ radioTree.Descent ⟨2⟩) ∧
    ∃ a' b', radioTree.Search ⟨3⟩ ⟨1⟩ a' b' := by
  obtain ⟨hup, -, hsearch⟩ :=
    StateTree.walks_of_build build_radio (a := ⟨3⟩) (b := ⟨1⟩) (by decide) (by decide)
  obtain ⟨-, hdown, -⟩ :=
    StateTree.walks_of_build build_radio (a := ⟨2⟩) (b := ⟨1⟩) (by decide) (by decide)
  exact ⟨⟨rfl, hup⟩, ⟨rfl, hdown⟩, hsearch⟩

end Statechart
