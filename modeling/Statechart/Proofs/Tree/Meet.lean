import Statechart.Proofs.Tree.Ancestry

/-!
# The common ancestor of two states

`StateTree.lca` first brings both states to one depth and then goes up from both until they meet.
Its ancestors are exactly the common ancestors of the two states (`mem_ancestors_lca`). The domain
of a transition is an ancestor of both its ends, and neither of them unless that end is the root.
-/

namespace Statechart.StateTree

variable {t : StateTree}

/-! ### Depth -/

theorem WellFormed.eq_root (ht : t.WellFormed) {s : StateId} (hs : s.index < t.size)
    (h : (t.node s).parent = none) : s = t.root := by
  by_cases hne : s = t.root
  · exact hne
  · obtain ⟨p, hp⟩ := ht.exists_parent s hs hne
    rw [h] at hp
    cases hp

theorem WellFormed.eq_root_of_depth (ht : t.WellFormed) {s : StateId} (hs : s.index < t.size)
    (h : (t.node s).depth = 0) : s = t.root := by
  cases hp : (t.node s).parent with
  | none => exact ht.eq_root hs hp
  | some p =>
    have hd := ht.depth_child s p hp
    omega

theorem WellFormed.exists_parent_of_depth (ht : t.WellFormed) {s : StateId}
    (hs : s.index < t.size) (h : 0 < (t.node s).depth) : ∃ p, (t.node s).parent = some p := by
  apply ht.exists_parent s hs
  intro hroot
  rw [hroot, ht.depth_root] at h
  omega

theorem WellFormed.depth_le_index (ht : t.WellFormed) {s : StateId} (hs : s.index < t.size) :
    (t.node s).depth ≤ s.index := by
  induction s using ht.upward with
  | top s hp =>
    rw [ht.eq_root hs hp, ht.depth_root]
    exact Nat.zero_le _
  | below s p hp ih =>
    have hlt := ht.parent_lt s p hp
    have hd := ht.depth_child s p hp
    have := ih (by omega)
    omega

theorem WellFormed.length_ancestors (ht : t.WellFormed) {s : StateId} (hs : s.index < t.size) :
    (t.ancestors s).length = (t.node s).depth + 1 := by
  induction s using ht.upward with
  | top s hp =>
    rw [ancestors_of_parent_none hp, ht.eq_root hs hp, ht.depth_root]
    rfl
  | below s p hp ih =>
    have hlt := ht.parent_lt s p hp
    rw [ht.ancestors_cons hp, List.length_cons, ih (by omega), ht.depth_child s p hp]

theorem parentOrSelf_of_parent {s p : StateId} (h : (t.node s).parent = some p) :
    t.parentOrSelf s = p := by
  rw [parentOrSelf, h]
  rfl

/-! ### Meeting -/

/-- Raising a state to a depth loses only ancestors that are deeper. -/
theorem WellFormed.raiseTo_spec (ht : t.WellFormed) (depth fuel : Nat) {s : StateId}
    (hs : s.index < t.size) (hfuel : (t.node s).depth ≤ depth + fuel) :
    (t.raiseTo depth fuel s).index < t.size ∧
      (t.node (t.raiseTo depth fuel s)).depth = min (t.node s).depth depth ∧
      ∀ x, (t.node x).depth ≤ depth →
        (x ∈ t.ancestors (t.raiseTo depth fuel s) ↔ x ∈ t.ancestors s) := by
  induction fuel generalizing s with
  | zero => exact ⟨hs, by rw [raiseTo]; omega, fun _ _ => Iff.rfl⟩
  | succ fuel ih =>
    by_cases hd : depth < (t.node s).depth
    · obtain ⟨p, hp⟩ := ht.exists_parent_of_depth hs (by omega)
      have hlt := ht.parent_lt s p hp
      have hdp := ht.depth_child s p hp
      rw [raiseTo, if_pos hd, parentOrSelf_of_parent hp]
      obtain ⟨hr, hdr, hmem⟩ := ih (s := p) (by omega) (by omega)
      refine ⟨hr, by omega, ?_⟩
      intro x hx
      rw [hmem x hx, ht.mem_ancestors_cons hp]
      -- Only the state itself is lost, and it lies too deep.
      refine ⟨.inr, fun h => h.resolve_left ?_⟩
      rintro rfl
      omega
    · rw [raiseTo, if_neg hd]
      exact ⟨hs, by omega, fun _ _ => Iff.rfl⟩

/-- Two different states of one depth both have a parent, and these are of one depth as well. -/
theorem WellFormed.exists_parents (ht : t.WellFormed) {a b : StateId} (ha : a.index < t.size)
    (hb : b.index < t.size) (hd : (t.node a).depth = (t.node b).depth) (hne : a ≠ b) :
    ∃ p q, (t.node a).parent = some p ∧ (t.node b).parent = some q ∧ p.index < t.size ∧
      q.index < t.size ∧ (t.node a).depth = (t.node p).depth + 1 ∧
      (t.node p).depth = (t.node q).depth := by
  have hpos : 0 < (t.node a).depth := by
    rcases Nat.eq_zero_or_pos (t.node a).depth with h0 | hpos
    · have ha' := ht.eq_root_of_depth ha h0
      have hb' := ht.eq_root_of_depth hb (by omega)
      exact absurd (ha'.trans hb'.symm) hne
    · exact hpos
  obtain ⟨p, hp⟩ := ht.exists_parent_of_depth ha hpos
  obtain ⟨q, hq⟩ := ht.exists_parent_of_depth hb (by omega)
  have hpa := ht.parent_lt a p hp
  have hqb := ht.parent_lt b q hq
  have hdp := ht.depth_child a p hp
  have hdq := ht.depth_child b q hq
  exact ⟨p, q, hp, hq, by omega, by omega, hdp, by omega⟩

/-- Two states of one depth have the ancestors in common that their meeting point has. -/
theorem WellFormed.meet_spec (ht : t.WellFormed) (fuel : Nat) {a b : StateId}
    (ha : a.index < t.size) (hb : b.index < t.size)
    (hd : (t.node a).depth = (t.node b).depth) (hfuel : (t.node a).depth ≤ fuel) :
    (t.meet fuel a b).index < t.size ∧
      ∀ x, x ∈ t.ancestors (t.meet fuel a b) ↔ x ∈ t.ancestors a ∧ x ∈ t.ancestors b := by
  induction fuel generalizing a b with
  | zero =>
    -- At depth zero both states are the root.
    have ha' := ht.eq_root_of_depth ha (by omega)
    have hb' := ht.eq_root_of_depth hb (by omega)
    rw [meet, hb', ha']
    exact ⟨ht.nonempty, fun x => (and_self_iff).symm⟩
  | succ fuel ih =>
    by_cases hab : a = b
    · rw [meet, if_pos hab, hab]
      exact ⟨hb, fun x => (and_self_iff).symm⟩
    · obtain ⟨p, q, hp, hq, hpt, hqt, hdp, hdpq⟩ := ht.exists_parents ha hb hd hab
      rw [meet, if_neg hab, parentOrSelf_of_parent hp, parentOrSelf_of_parent hq]
      obtain ⟨hm, hmem⟩ := ih hpt hqt hdpq (by omega)
      refine ⟨hm, ?_⟩
      intro x
      rw [hmem x, ht.mem_ancestors_cons hp, ht.mem_ancestors_cons hq]
      refine ⟨fun h => ⟨.inr h.1, .inr h.2⟩, ?_⟩
      rintro ⟨hxa, hxb⟩
      -- Neither state is an ancestor of the other, since both have one depth.
      have hxa' : x ≠ a := by
        rintro rfl
        rcases hxb with rfl | hxq
        · exact hab rfl
        · rcases ht.depth_le_of_mem_ancestors hxq with rfl | hlt <;> omega
      have hxb' : x ≠ b := by
        rintro rfl
        rcases hxa with rfl | hxp
        · exact hab rfl
        · rcases ht.depth_le_of_mem_ancestors hxp with rfl | hlt <;> omega
      exact ⟨hxa.resolve_left hxa', hxb.resolve_left hxb'⟩

/-- **The ancestors of the common ancestor are the common ancestors.** -/
theorem WellFormed.lca_spec (ht : t.WellFormed) {a b : StateId} (ha : a.index < t.size)
    (hb : b.index < t.size) :
    (t.lca a b).index < t.size ∧
      ∀ x, x ∈ t.ancestors (t.lca a b) ↔ x ∈ t.ancestors a ∧ x ∈ t.ancestors b := by
  have hda := ht.depth_le_index ha
  have hdb := ht.depth_le_index hb
  obtain ⟨har, hdar, hmema⟩ :=
    ht.raiseTo_spec (t.node b).depth t.size ha (by omega)
  obtain ⟨hbr, hdbr, hmemb⟩ := ht.raiseTo_spec
    (t.node (t.raiseTo (t.node b).depth t.size a)).depth t.size hb (by omega)
  obtain ⟨hm, hmem⟩ := ht.meet_spec t.size har hbr (by omega) (by omega)
  refine ⟨hm, ?_⟩
  intro x
  rw [lca, hmem x]
  -- Raising loses only deeper ancestors, and a common ancestor is no deeper than either state.
  constructor
  · rintro ⟨hxa, hxb⟩
    have hx : (t.node x).depth ≤ (t.node (t.raiseTo (t.node b).depth t.size a)).depth := by
      rcases ht.depth_le_of_mem_ancestors hxa with rfl | hlt <;> omega
    exact ⟨(hmema x (by omega)).mp hxa, (hmemb x hx).mp hxb⟩
  · rintro ⟨hxa, hxb⟩
    have hx : (t.node x).depth ≤ (t.node a).depth := by
      rcases ht.depth_le_of_mem_ancestors hxa with rfl | hlt <;> omega
    have hx' : (t.node x).depth ≤ (t.node b).depth := by
      rcases ht.depth_le_of_mem_ancestors hxb with rfl | hlt <;> omega
    exact ⟨(hmema x hx').mpr hxa, (hmemb x (by omega)).mpr hxb⟩

/-! ### The domain of a transition -/

theorem WellFormed.parentOrSelf_mem_ancestors (ht : t.WellFormed) (s : StateId) :
    t.parentOrSelf s ∈ t.ancestors s := by
  cases hp : (t.node s).parent with
  | none =>
    rw [parentOrSelf, hp]
    exact ht.self_mem_ancestors s
  | some p =>
    rw [parentOrSelf_of_parent hp, ht.mem_ancestors_cons hp]
    exact .inr (ht.self_mem_ancestors p)

/-- The domain is a common ancestor of the ends of a transition. -/
theorem WellFormed.domain_mem_ancestors (ht : t.WellFormed) {source target : StateId}
    (hs : source.index < t.size) (hg : target.index < t.size) :
    t.domain source target ∈ t.ancestors source ∧
      t.domain source target ∈ t.ancestors target := by
  obtain ⟨_, hmem⟩ := ht.lca_spec hs hg
  refine (hmem _).mp ?_
  simp only [domain]
  split
  · exact ht.parentOrSelf_mem_ancestors _
  · exact ht.self_mem_ancestors _

/-- The domain lies strictly above each end that is not the root. -/
theorem WellFormed.domain_ne (ht : t.WellFormed) {source target end_ : StateId}
    (hs : source.index < t.size) (hg : target.index < t.size)
    (he : end_ = source ∨ end_ = target) (hroot : end_ ≠ t.root) :
    t.domain source target ≠ end_ := by
  obtain ⟨hlca, hmem⟩ := ht.lca_spec hs hg
  have hself := (hmem _).mp (ht.self_mem_ancestors (t.lca source target))
  have hle : (t.lca source target).index ≤ end_.index := by
    rcases he with rfl | rfl
    · exact ht.index_le_of_mem_ancestors hself.1
    · exact ht.index_le_of_mem_ancestors hself.2
  simp only [domain]
  by_cases hend : t.lca source target = source ∨ t.lca source target = target
  · simp only [if_pos hend]
    cases hp : (t.node (t.lca source target)).parent with
    | none =>
      rw [parentOrSelf, hp]
      intro h
      exact hroot (h.symm.trans (ht.eq_root hlca hp))
    | some p =>
      have hlt := ht.parent_lt _ p hp
      rw [parentOrSelf_of_parent hp]
      rintro rfl
      omega
  · simp only [if_neg hend]
    rcases he with rfl | rfl
    · intro h
      exact hend (.inl h)
    · intro h
      exact hend (.inr h)

/-- A transition that starts or ends at the root has the root as its domain. -/
theorem WellFormed.domain_eq_root (ht : t.WellFormed) {source target : StateId}
    (hs : source.index < t.size) (hg : target.index < t.size)
    (h : source = t.root ∨ target = t.root) : t.domain source target = t.root := by
  obtain ⟨h₁, h₂⟩ := ht.domain_mem_ancestors hs hg
  have hroot := ancestors_of_parent_none ht.root_parent
  rcases h with rfl | rfl
  · rw [hroot] at h₁
    exact List.mem_singleton.mp h₁
  · rw [hroot] at h₂
    exact List.mem_singleton.mp h₂

/-- **The domain is the deepest state that lies strictly above both ends**: what is above it lies
strictly above both, and the other way round. -/
theorem WellFormed.mem_ancestors_domain (ht : t.WellFormed) {source target x : StateId}
    (hs : source.index < t.size) (hg : target.index < t.size) (hs' : source ≠ t.root)
    (hg' : target ≠ t.root) :
    x ∈ t.ancestors (t.domain source target) ↔ t.Below x source ∧ t.Below x target := by
  obtain ⟨hds, hdg⟩ := ht.domain_mem_ancestors hs hg
  constructor
  · intro hx
    have hsource : t.Below (t.domain source target) source :=
      ⟨hds, (ht.domain_ne hs hg (.inl rfl) hs').symm⟩
    have htarget : t.Below (t.domain source target) target :=
      ⟨hdg, (ht.domain_ne hs hg (.inr rfl) hg').symm⟩
    exact ⟨ht.below_of_mem_ancestors hx hsource, ht.below_of_mem_ancestors hx htarget⟩
  · rintro ⟨hxs, hxg⟩
    obtain ⟨hlca, hmem⟩ := ht.lca_spec hs hg
    have hx : x ∈ t.ancestors (t.lca source target) := (hmem x).mpr ⟨hxs.1, hxg.1⟩
    simp only [domain]
    split
    case isFalse => exact hx
    case isTrue hend =>
      -- The common ancestor is one of the ends, and `x` is not: it goes up with it.
      have hne : t.lca source target ≠ t.root ∧ x ≠ t.lca source target := by
        rcases hend with heq | heq
        · rw [heq]
          exact ⟨hs', hxs.2.symm⟩
        · rw [heq]
          exact ⟨hg', hxg.2.symm⟩
      obtain ⟨p, hp⟩ := ht.exists_parent _ hlca hne.1
      rw [parentOrSelf_of_parent hp]
      exact ((ht.mem_ancestors_cons hp).mp hx).resolve_left hne.2

theorem WellFormed.domain_comm (ht : t.WellFormed) {source target : StateId}
    (hs : source.index < t.size) (hg : target.index < t.size) :
    t.domain source target = t.domain target source := by
  by_cases hroot : source = t.root ∨ target = t.root
  · rw [ht.domain_eq_root hs hg hroot, ht.domain_eq_root hg hs hroot.symm]
  · obtain ⟨hs', hg'⟩ := not_or.mp hroot
    apply ht.eq_of_ancestors
    intro x
    rw [ht.mem_ancestors_domain hs hg hs' hg', ht.mem_ancestors_domain hg hs hg' hs']
    exact and_comm

/-- An end of a transition is no ancestor of the domain, unless it is the root. -/
theorem WellFormed.end_not_mem_ancestors_domain (ht : t.WellFormed) {source target end_ : StateId}
    (hs : source.index < t.size) (hg : target.index < t.size)
    (he : end_ = source ∨ end_ = target) (hroot : end_ ≠ t.root) :
    end_ ∉ t.ancestors (t.domain source target) := by
  intro habove
  obtain ⟨hds, hdg⟩ := ht.domain_mem_ancestors hs hg
  have hd : t.domain source target ∈ t.ancestors end_ := by
    rcases he with rfl | rfl
    · exact hds
    · exact hdg
  exact ht.domain_ne hs hg he hroot (ht.ancestors_antisymm hd habove)

end Statechart.StateTree
