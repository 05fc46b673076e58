import Mathlib.Data.List.Chain
import Mathlib.Data.List.Nodup
import Statechart.Tree.Hierarchy
import Statechart.Proofs.Tree.WellFormed

/-!
# Ancestors and initial descent

In a well-formed tree the bounded walks of `StateTree.ancestors` and `StateTree.initialPath` never
run out: they obey the equations of an unbounded walk (`ancestors_cons`, `initialPath_cons`). Facts
about ancestors are proved by going up (`upward`), facts about initial descent by going down
(`downward`).

`StateTree.path` is the way from the root down to a state, and `StateTree.bottom` the leaf at which
the initial descent from a state ends.
-/

namespace Statechart

theorem StateId.eq_of_index {a b : StateId} (h : a.index = b.index) : a = b := by
  cases a
  cases b
  cases h
  rfl

namespace StateTree

variable {t : StateTree}

/-- The way from the root down to `s`, both included. -/
def path (t : StateTree) (s : StateId) : List StateId := (t.ancestors s).reverse

/-- The leaf below `s` along initial children. -/
def bottom (t : StateTree) (s : StateId) : StateId := (t.initialPath s).getLastD s

/-! ### Going up -/

/-- What holds of states without a parent and goes down from parents to children holds of all. -/
theorem WellFormed.upward (ht : t.WellFormed) {motive : StateId → Prop}
    (top : ∀ s, (t.node s).parent = none → motive s)
    (below : ∀ s p, (t.node s).parent = some p → motive p → motive s) (s : StateId) :
    motive s := by
  -- Parents have smaller numbers.
  obtain ⟨n, hn⟩ : ∃ n, s.index < n := ⟨s.index + 1, Nat.lt_succ_self _⟩
  induction n generalizing s with
  | zero => omega
  | succ n ih =>
    cases hp : (t.node s).parent with
    | none => exact top s hp
    | some p =>
      have hlt := (ht.parent_lt s p hp).1
      exact below s p hp (ih p (by omega))

theorem climb_succ {n : Nat} {s p : StateId} (h : (t.node s).parent = some p) :
    t.climb (n + 1) s = s :: t.climb n p := by
  rw [climb, h]

theorem climb_top {n : Nat} {s : StateId} (h : (t.node s).parent = none) : t.climb n s = [s] := by
  cases n with
  | zero => rfl
  | succ n => rw [climb, h]

/-- The number of a state is fuel enough for the walk up from it. -/
theorem WellFormed.climb_eq (ht : t.WellFormed) {m n : Nat} {s : StateId} (hm : s.index ≤ m)
    (hn : s.index ≤ n) : t.climb m s = t.climb n s := by
  induction m generalizing n s with
  | zero =>
    cases hp : (t.node s).parent with
    | none => rw [climb_top hp, climb_top hp]
    | some p =>
      have hlt := (ht.parent_lt s p hp).1
      omega
  | succ m ih =>
    cases hp : (t.node s).parent with
    | none => rw [climb_top hp, climb_top hp]
    | some p =>
      have hlt := (ht.parent_lt s p hp).1
      cases n with
      | zero => omega
      | succ n => rw [climb_succ hp, climb_succ hp, ih (n := n) (by omega) (by omega)]

theorem ancestors_of_parent_none {s : StateId} (h : (t.node s).parent = none) :
    t.ancestors s = [s] :=
  climb_top h

theorem WellFormed.ancestors_cons (ht : t.WellFormed) {s p : StateId}
    (h : (t.node s).parent = some p) : t.ancestors s = s :: t.ancestors p := by
  obtain ⟨hlt, hs⟩ := ht.parent_lt s p h
  unfold ancestors
  cases hsize : t.size with
  | zero => omega
  | succ n => rw [climb_succ h, ht.climb_eq (m := n) (n := n + 1) (by omega) (by omega)]

theorem WellFormed.self_mem_ancestors (ht : t.WellFormed) (s : StateId) : s ∈ t.ancestors s := by
  cases hp : (t.node s).parent with
  | none => simp [ancestors_of_parent_none hp]
  | some p => simp [ht.ancestors_cons hp]

theorem WellFormed.mem_ancestors_cons (ht : t.WellFormed) {s p a : StateId}
    (h : (t.node s).parent = some p) : a ∈ t.ancestors s ↔ a = s ∨ a ∈ t.ancestors p := by
  rw [ht.ancestors_cons h, List.mem_cons]

theorem WellFormed.ancestors_trans (ht : t.WellFormed) {a b c : StateId}
    (hab : a ∈ t.ancestors b) (hbc : b ∈ t.ancestors c) : a ∈ t.ancestors c := by
  induction c using ht.upward with
  | top c hp =>
    rw [ancestors_of_parent_none hp, List.mem_singleton] at hbc
    rwa [← hbc]
  | below c p hp ih =>
    rcases (ht.mem_ancestors_cons hp).mp hbc with rfl | hbp
    · exact hab
    · exact (ht.mem_ancestors_cons hp).mpr (.inr (ih hbp))

/-- The ancestors of an ancestor are the rest of the way up. -/
theorem WellFormed.takeWhile_append_ancestors (ht : t.WellFormed) {a s : StateId}
    (h : a ∈ t.ancestors s) :
    ((t.ancestors s).takeWhile fun b => b != a) ++ t.ancestors a = t.ancestors s := by
  induction s using ht.upward with
  | top s hp =>
    rw [ancestors_of_parent_none hp, List.mem_singleton] at h
    subst h
    simp [ancestors_of_parent_none hp]
  | below s p hp ih =>
    by_cases hne : s = a
    · subst hne
      simp [ht.ancestors_cons hp]
    · have hap := ((ht.mem_ancestors_cons hp).mp h).resolve_left (Ne.symm hne)
      rw [ht.ancestors_cons hp, List.takeWhile_cons_of_pos (by simpa using hne),
        List.cons_append, ih hap]

theorem WellFormed.index_le_of_mem_ancestors (ht : t.WellFormed) {a s : StateId}
    (h : a ∈ t.ancestors s) : a.index ≤ s.index := by
  induction s using ht.upward with
  | top s hp =>
    rw [ancestors_of_parent_none hp, List.mem_singleton] at h
    rw [h]
  | below s p hp ih =>
    have hlt := (ht.parent_lt s p hp).1
    rcases (ht.mem_ancestors_cons hp).mp h with rfl | hap
    · exact Nat.le_refl _
    · have := ih hap
      omega

/-- No state is passed twice on the way up. -/
theorem WellFormed.nodup_ancestors (ht : t.WellFormed) (s : StateId) :
    (t.ancestors s).Nodup := by
  induction s using ht.upward with
  | top s hp => simp [ancestors_of_parent_none hp]
  | below s p hp ih =>
    rw [ht.ancestors_cons hp, List.nodup_cons]
    refine ⟨?_, ih⟩
    intro hmem
    have hle := ht.index_le_of_mem_ancestors hmem
    have hlt := (ht.parent_lt s p hp).1
    omega

theorem WellFormed.lt_size_of_mem_ancestors (ht : t.WellFormed) {a s : StateId}
    (hs : s.index < t.size) (h : a ∈ t.ancestors s) : a.index < t.size :=
  Nat.lt_of_le_of_lt (ht.index_le_of_mem_ancestors h) hs

theorem WellFormed.root_mem_ancestors (ht : t.WellFormed) {s : StateId} (hs : s.index < t.size) :
    t.root ∈ t.ancestors s := by
  induction s using ht.upward with
  | top s hp =>
    by_cases hne : s = t.root
    · simp [hne, ht.self_mem_ancestors]
    · obtain ⟨p, hp'⟩ := ht.exists_parent s hs hne
      rw [hp] at hp'
      cases hp'
  | below s p hp ih =>
    have hlt := ht.parent_lt s p hp
    exact (ht.mem_ancestors_cons hp).mpr (.inr (ih (by omega)))

theorem WellFormed.depth_le_of_mem_ancestors (ht : t.WellFormed) {a s : StateId}
    (h : a ∈ t.ancestors s) : a = s ∨ (t.node a).depth < (t.node s).depth := by
  induction s using ht.upward with
  | top s hp =>
    rw [ancestors_of_parent_none hp, List.mem_singleton] at h
    exact .inl h
  | below s p hp ih =>
    have hd := ht.depth_child s p hp
    rcases (ht.mem_ancestors_cons hp).mp h with h | hap
    · exact .inl h
    · refine .inr ?_
      rcases ih hap with rfl | hlt <;> omega

/-! ### Above and below -/

/-- The state `s` is strictly below `d`. -/
def Below (t : StateTree) (d s : StateId) : Prop := d ∈ t.ancestors s ∧ s ≠ d

theorem isDescendant_iff {a s : StateId} : t.isDescendant s a = true ↔ a ∈ t.ancestors s := by
  rw [isDescendant, List.contains_iff_mem]

theorem WellFormed.ancestors_antisymm (ht : t.WellFormed) {a b : StateId}
    (hab : a ∈ t.ancestors b) (hba : b ∈ t.ancestors a) : a = b :=
  StateId.eq_of_index <|
    Nat.le_antisymm (ht.index_le_of_mem_ancestors hab) (ht.index_le_of_mem_ancestors hba)

/-- A state is determined by its ancestors. -/
theorem WellFormed.eq_of_ancestors (ht : t.WellFormed) {a b : StateId}
    (h : ∀ x, x ∈ t.ancestors a ↔ x ∈ t.ancestors b) : a = b :=
  ht.ancestors_antisymm ((h a).mp (ht.self_mem_ancestors a))
    ((h b).mpr (ht.self_mem_ancestors b))

/-- Of two ancestors of a state one is an ancestor of the other. -/
theorem WellFormed.ancestors_comparable (ht : t.WellFormed) {a b s : StateId}
    (ha : a ∈ t.ancestors s) (hb : b ∈ t.ancestors s) : a ∈ t.ancestors b ∨ b ∈ t.ancestors a := by
  induction s using ht.upward with
  | top s hp =>
    rw [ancestors_of_parent_none hp, List.mem_singleton] at ha hb
    rw [ha, hb]
    exact .inl (ht.self_mem_ancestors s)
  | below s p hp ih =>
    rcases (ht.mem_ancestors_cons hp).mp ha with rfl | hap
    · exact .inr hb
    · rcases (ht.mem_ancestors_cons hp).mp hb with rfl | hbp
      · exact .inl ha
      · exact ih hap hbp

/-- What is above a state that lies strictly above `s` lies strictly above `s` as well. -/
theorem WellFormed.below_of_mem_ancestors (ht : t.WellFormed) {x d s : StateId}
    (hxd : x ∈ t.ancestors d) (hds : t.Below d s) : t.Below x s := by
  refine ⟨ht.ancestors_trans hxd hds.1, ?_⟩
  rintro rfl
  exact hds.2 (ht.ancestors_antisymm hxd hds.1)

/-! ### Paths -/

theorem WellFormed.path_cons (ht : t.WellFormed) {s p : StateId}
    (h : (t.node s).parent = some p) : t.path s = t.path p ++ [s] := by
  rw [path, ht.ancestors_cons h, List.reverse_cons, path]

@[simp] theorem mem_path {a s : StateId} : a ∈ t.path s ↔ a ∈ t.ancestors s := List.mem_reverse

theorem WellFormed.nodup_path (ht : t.WellFormed) (s : StateId) : (t.path s).Nodup :=
  List.nodup_reverse.mpr (ht.nodup_ancestors s)

/-- A path goes through each of its states: it is the path to that state and the way on. -/
theorem WellFormed.path_append (ht : t.WellFormed) {a s : StateId} (h : a ∈ t.ancestors s) :
    t.path a ++ ((t.ancestors s).takeWhile fun b => b != a).reverse = t.path s := by
  rw [path, path, ← List.reverse_append, ht.takeWhile_append_ancestors h]

/-- Each state of a path is the parent of the next. -/
theorem WellFormed.isChain_path (ht : t.WellFormed) (s : StateId) :
    (t.path s).IsChain fun a b => b ∈ (t.node a).children := by
  induction s using ht.upward with
  | top s hp => simp [path, ancestors_of_parent_none hp]
  | below s p hp ih =>
    rw [ht.path_cons hp, List.isChain_append]
    refine ⟨ih, List.isChain_singleton s, ?_⟩
    intro a ha b hb
    have hlast : (t.path p).getLast? = some p := by
      rw [path, List.getLast?_reverse]
      cases hq : (t.node p).parent with
      | none => simp [ancestors_of_parent_none hq]
      | some q => simp [ht.ancestors_cons hq]
    rw [hlast] at ha
    cases ha
    cases hb
    exact (ht.mem_children s p).mpr hp

theorem WellFormed.head?_path (ht : t.WellFormed) {s : StateId} (hs : s.index < t.size) :
    (t.path s).head? = some t.root := by
  induction s using ht.upward with
  | top s hp =>
    by_cases hne : s = t.root
    · rw [path, ancestors_of_parent_none hp, hne]
      rfl
    · obtain ⟨p, hp'⟩ := ht.exists_parent s hs hne
      rw [hp] at hp'
      cases hp'
  | below s p hp ih =>
    have hlt := ht.parent_lt s p hp
    rw [ht.path_cons hp, List.head?_append, ih (by omega)]
    rfl

theorem WellFormed.getLast?_path (ht : t.WellFormed) (s : StateId) :
    (t.path s).getLast? = some s := by
  cases hp : (t.node s).parent with
  | none => simp [path, ancestors_of_parent_none hp]
  | some p => simp [ht.path_cons hp]

/-! ### Going down -/

theorem WellFormed.initial_lt (ht : t.WellFormed) {s c : StateId}
    (h : (t.node s).initial = some c) :
    s.index < c.index ∧ c.index < t.size ∧ (t.node c).parent = some s := by
  have hp := (ht.mem_children c s).mp (ht.initial_mem s c h)
  obtain ⟨hlt, hc⟩ := ht.parent_lt c s hp
  exact ⟨hlt, hc, hp⟩

/-- What holds of leaves and goes up from initial children holds of all states. -/
theorem WellFormed.downward (ht : t.WellFormed) {motive : StateId → Prop}
    (leaf : ∀ s, (t.node s).initial = none → motive s)
    (above : ∀ s c, (t.node s).initial = some c → motive c → motive s) (s : StateId) :
    motive s := by
  -- Initial children have larger numbers, and these are bounded by the size.
  obtain ⟨n, hn⟩ : ∃ n, t.size ≤ s.index + n := ⟨t.size, Nat.le_add_left _ _⟩
  induction n generalizing s with
  | zero =>
    cases hc : (t.node s).initial with
    | none => exact leaf s hc
    | some c =>
      have hlt := ht.initial_lt hc
      omega
  | succ n ih =>
    cases hc : (t.node s).initial with
    | none => exact leaf s hc
    | some c =>
      have hlt := ht.initial_lt hc
      exact above s c hc (ih c (by omega))

theorem descend_succ {n : Nat} {s c : StateId} (h : (t.node s).initial = some c) :
    t.descend (n + 1) s = s :: t.descend n c := by
  rw [descend, h]

theorem descend_leaf {n : Nat} {s : StateId} (h : (t.node s).initial = none) :
    t.descend n s = [s] := by
  cases n with
  | zero => rfl
  | succ n => rw [descend, h]

/-- The number of states behind `s` is fuel enough for the walk down from it. -/
theorem WellFormed.descend_eq (ht : t.WellFormed) {m n : Nat} {s : StateId}
    (hm : t.size ≤ s.index + m + 1) (hn : t.size ≤ s.index + n + 1) :
    t.descend m s = t.descend n s := by
  induction m generalizing n s with
  | zero =>
    cases hc : (t.node s).initial with
    | none => rw [descend_leaf hc, descend_leaf hc]
    | some c =>
      have hlt := ht.initial_lt hc
      omega
  | succ m ih =>
    cases hc : (t.node s).initial with
    | none => rw [descend_leaf hc, descend_leaf hc]
    | some c =>
      have hlt := ht.initial_lt hc
      cases n with
      | zero => omega
      | succ n => rw [descend_succ hc, descend_succ hc, ih (n := n) (by omega) (by omega)]

theorem initialPath_of_initial_none {s : StateId} (h : (t.node s).initial = none) :
    t.initialPath s = [s] :=
  descend_leaf h

theorem WellFormed.initialPath_cons (ht : t.WellFormed) {s c : StateId}
    (h : (t.node s).initial = some c) : t.initialPath s = s :: t.initialPath c := by
  have hlt := ht.initial_lt h
  unfold initialPath
  cases hsize : t.size with
  | zero => omega
  | succ n =>
    rw [descend_succ h, ht.descend_eq (m := n) (n := n + 1) (by omega) (by omega)]

theorem WellFormed.exists_initialPath (ht : t.WellFormed) (s : StateId) :
    ∃ rest, t.initialPath s = s :: rest := by
  cases hc : (t.node s).initial with
  | none => exact ⟨[], initialPath_of_initial_none hc⟩
  | some c => exact ⟨_, ht.initialPath_cons hc⟩

theorem bottom_of_initial_none {s : StateId} (h : (t.node s).initial = none) :
    t.bottom s = s := by
  simp [bottom, initialPath_of_initial_none h]

theorem WellFormed.bottom_cons (ht : t.WellFormed) {s c : StateId}
    (h : (t.node s).initial = some c) : t.bottom s = t.bottom c := by
  obtain ⟨rest, hrest⟩ := ht.exists_initialPath c
  rw [bottom, bottom, ht.initialPath_cons h, hrest, List.getLastD_cons, List.getLastD_cons,
    List.getLastD_cons]

/-- The initial descent from `s` continues the path to `s`. -/
theorem WellFormed.path_bottom (ht : t.WellFormed) (s : StateId) :
    t.path (t.bottom s) = t.path s ++ (t.initialPath s).drop 1 := by
  induction s using ht.downward with
  | leaf s hc => simp [bottom_of_initial_none hc, initialPath_of_initial_none hc]
  | above s c hc ih =>
    have hp := (ht.initial_lt hc).2.2
    obtain ⟨rest, hrest⟩ := ht.exists_initialPath c
    rw [ht.bottom_cons hc, ih, ht.path_cons hp, ht.initialPath_cons hc, hrest]
    simp

/-- The initial descent ends at a leaf. -/
theorem WellFormed.children_bottom (ht : t.WellFormed) (s : StateId) :
    (t.node (t.bottom s)).children = [] := by
  induction s using ht.downward with
  | leaf s hc =>
    rw [bottom_of_initial_none hc]
    exact ht.initial_none s hc
  | above s c hc ih => rwa [ht.bottom_cons hc]

theorem WellFormed.bottom_lt_size (ht : t.WellFormed) {s : StateId} (hs : s.index < t.size) :
    (t.bottom s).index < t.size := by
  induction s using ht.downward with
  | leaf s hc => rwa [bottom_of_initial_none hc]
  | above s c hc ih =>
    rw [ht.bottom_cons hc]
    exact ih (ht.initial_lt hc).2.1

end StateTree

end Statechart
