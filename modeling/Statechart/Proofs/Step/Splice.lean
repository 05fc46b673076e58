import Statechart.Proofs.Tree.Meet
import Statechart.Step

/-!
# How a step splices the active path

The active states of a running machine are a path from the root down to a leaf
(`Configuration.IsPath`). Such a path is determined by its leaf (`isPath_iff`). A step keeps the
part of the path down to the domain of its transition, leaves what lies below, and enters another
way down to a leaf (`plan_splice`). A transition with a target leaves its source and enters its
target, but never the root (`source_mem_exit_iff`, `target_mem_entry_iff`).
-/

namespace Statechart

/-! ### Configurations that are paths -/

/-- The active states are a path from the root down to a leaf. -/
structure Configuration.IsPath (t : StateTree) (c : Configuration) : Prop where
  root : c.states.head? = some t.root
  child : c.states.IsChain fun a b => b ∈ (t.node a).children
  leaf : ∃ s, c.leaf? = some s ∧ (t.node s).isLeaf
  nodup : c.states.Nodup
  known : ∀ s ∈ c.states, s.index < t.size

/-- The active states are the path down to the leaf `s`. -/
structure Configuration.EndsAt (t : StateTree) (c : Configuration) (s : StateId) : Prop where
  path : c.states = t.path s
  known : s.index < t.size
  leaf : (t.node s).children = []

namespace StateTree

variable {t : StateTree} {c : Configuration}

/-- A chain of parents and children from the root on is the path to its last state. -/
theorem WellFormed.eq_path_of_isChain (ht : t.WellFormed) {l : List StateId} {s : StateId}
    (hchain : (l ++ [s]).IsChain fun a b => b ∈ (t.node a).children)
    (hroot : (l ++ [s]).head? = some t.root) : l ++ [s] = t.path s := by
  induction l using List.reverseRecOn generalizing s with
  | nil =>
    cases hroot
    simp [path, ancestors_of_parent_none ht.root_parent]
  | append_singleton l p ih =>
    obtain ⟨hl, _, hlink⟩ := List.isChain_append.mp hchain
    have hparent : (t.node s).parent = some p :=
      (ht.mem_children s p).mp (hlink p (by simp) s (by simp))
    rw [ht.path_cons hparent, ih hl (by simpa using hroot)]

theorem WellFormed.isPath_of_endsAt (ht : t.WellFormed) {s : StateId} (h : c.EndsAt t s) :
    c.IsPath t where
  root := by rw [h.path, ht.head?_path h.known]
  child := by
    rw [h.path]
    exact ht.isChain_path s
  leaf := ⟨s, by rw [Configuration.leaf?, h.path, ht.getLast?_path s], by simp [Node.isLeaf, h.leaf]⟩
  nodup := by
    rw [h.path]
    exact ht.nodup_path s
  known := by
    intro a ha
    rw [h.path, mem_path] at ha
    exact ht.lt_size_of_mem_ancestors h.known ha

/-- A path from the root down to a leaf is the path to that leaf. -/
theorem WellFormed.isPath_iff (ht : t.WellFormed) : c.IsPath t ↔ ∃ s, c.EndsAt t s := by
  refine ⟨?_, fun ⟨s, h⟩ => ht.isPath_of_endsAt h⟩
  intro h
  obtain ⟨s, hlast, hleaf⟩ := h.leaf
  obtain ⟨l, hl⟩ := List.getLast?_eq_some_iff.mp hlast
  refine ⟨s, ?_, h.known s (by simp [hl]), by simpa [Node.isLeaf] using hleaf⟩
  rw [hl]
  exact ht.eq_path_of_isChain (hl ▸ h.child) (hl ▸ h.root)

/-- A machine starts on a path. -/
theorem WellFormed.endsAt_initial (ht : t.WellFormed) :
    (Configuration.initial t).EndsAt t (t.bottom t.root) where
  path := by
    obtain ⟨rest, hrest⟩ := ht.exists_initialPath t.root
    rw [ht.path_bottom, path, ancestors_of_parent_none ht.root_parent, Configuration.initial, hrest]
    rfl
  known := ht.bottom_lt_size ht.nonempty
  leaf := ht.children_bottom t.root

/-! ### Splicing -/

theorem WellFormed.takeWhile_path (ht : t.WellFormed) {a s : StateId} (h : a ∈ t.ancestors s) :
    ((t.path s).takeWhile fun b => b != a) ++ [a] = t.path a := by
  obtain ⟨front, hfront⟩ := List.getLast?_eq_some_iff.mp (ht.getLast?_path a)
  have hnodup := ht.nodup_path a
  have hne : ∀ b ∈ front, (b != a) = true := by
    intro b hb
    rw [hfront] at hnodup
    have := (List.nodup_append.mp hnodup).2.2 b hb a (by simp)
    simpa using this
  rw [← ht.path_append h, hfront, List.append_assoc, List.takeWhile_append_of_pos hne]
  simp

/-- What taking a transition from `c` does to the path of active states. -/
structure Spliced (t : StateTree) (c : Configuration) (step : Step) (kept : List StateId)
    (leaf : StateId) : Prop where
  before : c.states = kept ++ step.exit.reverse
  after : step.configuration.states = kept ++ step.entry
  endsAt : step.configuration.EndsAt t leaf

/-- With a target, the path down to the domain stays and the way down to the bottom of the target
is entered. -/
theorem WellFormed.plan_target (ht : t.WellFormed) {tr : Transition} {leaf g : StateId}
    (hc : c.EndsAt t leaf) (hs : tr.source ∈ c.states) (hg : tr.target = some g)
    (hlt : g.index < t.size) :
    t.Spliced c (t.plan c tr) (t.path (t.domain tr.source g)) (t.bottom g) := by
  rw [hc.path, mem_path] at hs
  have hsource := ht.lt_size_of_mem_ancestors hc.known hs
  obtain ⟨hds, hdg⟩ := ht.domain_mem_ancestors hsource hlt
  have hdl := ht.ancestors_trans hds hs
  have hentry : (t.plan c tr).configuration.states =
      t.path (t.domain tr.source g) ++ (t.plan c tr).entry := by
    simp only [plan, hg, hc.path]
    rw [← List.singleton_append, ← List.append_assoc, ht.takeWhile_path hdl]
  refine ⟨?_, hentry, ?_, ht.bottom_lt_size hlt, ht.children_bottom g⟩
  · simp only [plan, hg, Configuration.innermostFirst, hc.path]
    rw [path, List.reverse_reverse, ← path]
    exact (ht.path_append hdl).symm
  · rw [hentry, ht.path_bottom]
    simp only [plan, hg]
    rw [← List.append_assoc, ht.path_append hdg]

/-- **A step splices the active path**: some states at its top stay, the states below them are
left, and other states are entered in their place, down to a leaf. -/
theorem WellFormed.plan_splice (ht : t.WellFormed) {tr : Transition} {s leaf : StateId}
    (hc : c.EndsAt t leaf) (hs : s ∈ c.states) (htr : tr ∈ (t.node s).declared) :
    ∃ kept leaf', t.Spliced c (t.plan c tr) kept leaf' := by
  have hsource := ht.source s tr htr
  cases hg : tr.target with
  | none => exact ⟨c.states, leaf, by simp [plan, hg], by simp [plan, hg], by simpa [plan, hg]⟩
  | some g =>
    exact ⟨_, _, ht.plan_target hc (hsource ▸ hs) hg (ht.target s tr htr g hg)⟩

/-! ### What is left and what is entered -/

/-- Given an active state, the active states are those at or above it and those strictly below. -/
theorem WellFormed.below_iff (ht : t.WellFormed) {leaf : StateId} (hc : c.EndsAt t leaf)
    {d s : StateId} (hd : d ∈ c.states) (hs : s ∈ c.states) :
    t.Below d s ↔ s ∉ t.ancestors d := by
  rw [hc.path, mem_path] at hd hs
  constructor
  · rintro ⟨hds, hne⟩ hsd
    exact hne (ht.ancestors_antisymm hsd hds)
  · intro hsd
    refine ⟨(ht.ancestors_comparable hd hs).resolve_right hsd, ?_⟩
    rintro rfl
    exact hsd (ht.self_mem_ancestors s)

section Target

variable {tr : Transition} {s g a leaf : StateId}

theorem WellFormed.declared_target (ht : t.WellFormed) (hc : c.EndsAt t leaf) (hs : s ∈ c.states)
    (htr : tr ∈ (t.node s).declared) (hg : tr.target = some g) :
    t.Spliced c (t.plan c tr) (t.path (t.domain tr.source g)) (t.bottom g) := by
  have hsource := ht.source s tr htr
  exact ht.plan_target hc (hsource ▸ hs) hg (ht.target s tr htr g hg)

theorem WellFormed.domain_active (ht : t.WellFormed) (hc : c.EndsAt t leaf) (hs : s ∈ c.states)
    (htr : tr ∈ (t.node s).declared) (hg : tr.target = some g) :
    t.domain tr.source g ∈ c.states := by
  have hspliced := ht.declared_target hc hs htr hg
  rw [hspliced.before]
  exact List.mem_append_left _ (mem_path.mpr (ht.self_mem_ancestors _))

/-- Of the states active before, those that are neither the domain nor above it are left. -/
theorem WellFormed.mem_exit_iff (ht : t.WellFormed) (hc : c.EndsAt t leaf) (hs : s ∈ c.states)
    (htr : tr ∈ (t.node s).declared) (hg : tr.target = some g) (ha : a ∈ c.states) :
    a ∈ (t.plan c tr).exit ↔ a ∉ t.ancestors (t.domain tr.source g) := by
  have hspliced := ht.declared_target hc hs htr hg
  have hnodup := hspliced.before ▸ (ht.isPath_of_endsAt hc).nodup
  constructor
  · intro hexit habove
    exact List.disjoint_of_nodup_append hnodup (mem_path.mpr habove) (List.mem_reverse.mpr hexit)
  · intro hbelow
    rw [hspliced.before, List.mem_append, mem_path, List.mem_reverse] at ha
    exact ha.resolve_left hbelow

/-- Of the states active afterwards, those that are neither the domain nor above it are entered. -/
theorem WellFormed.mem_entry_iff (ht : t.WellFormed) (hc : c.EndsAt t leaf) (hs : s ∈ c.states)
    (htr : tr ∈ (t.node s).declared) (hg : tr.target = some g)
    (ha : a ∈ (t.plan c tr).configuration.states) :
    a ∈ (t.plan c tr).entry ↔ a ∉ t.ancestors (t.domain tr.source g) := by
  have hspliced := ht.declared_target hc hs htr hg
  have hnodup := hspliced.after ▸ (ht.isPath_of_endsAt hspliced.endsAt).nodup
  constructor
  · intro hentry habove
    exact List.disjoint_of_nodup_append hnodup (mem_path.mpr habove) hentry
  · intro hbelow
    rw [hspliced.after, List.mem_append, mem_path] at ha
    exact ha.resolve_left hbelow

theorem WellFormed.below_of_mem_entry (ht : t.WellFormed) (hc : c.EndsAt t leaf)
    (hs : s ∈ c.states) (htr : tr ∈ (t.node s).declared) (hg : tr.target = some g)
    (ha : a ∈ (t.plan c tr).entry) : t.Below (t.domain tr.source g) a := by
  have hspliced := ht.declared_target hc hs htr hg
  have hdomain : t.domain tr.source g ∈ (t.plan c tr).configuration.states := by
    rw [hspliced.after]
    exact List.mem_append_left _ (mem_path.mpr (ht.self_mem_ancestors _))
  have hentered : a ∈ (t.plan c tr).configuration.states := by
    rw [hspliced.after]
    exact List.mem_append_right _ ha
  apply (ht.below_iff hspliced.endsAt hdomain hentered).mpr
  exact (ht.mem_entry_iff hc hs htr hg hentered).mp ha

theorem WellFormed.root_active (ht : t.WellFormed) (hc : c.EndsAt t leaf) : t.root ∈ c.states := by
  rw [hc.path, mem_path]
  exact ht.root_mem_ancestors hc.known

/-- The root is above every domain. -/
theorem WellFormed.root_not_mem_plan (ht : t.WellFormed) (hc : c.EndsAt t leaf) (hs : s ∈ c.states)
    (htr : tr ∈ (t.node s).declared) :
    t.root ∉ (t.plan c tr).exit ∧ t.root ∉ (t.plan c tr).entry := by
  cases hg : tr.target with
  | none => simp [plan, hg]
  | some g =>
    have hknown := (ht.isPath_of_endsAt hc).known
    have habove := ht.root_mem_ancestors (hknown _ (ht.domain_active hc hs htr hg))
    refine ⟨fun hexit => (ht.mem_exit_iff hc hs htr hg (ht.root_active hc)).mp hexit habove,
      fun hentry => ?_⟩
    obtain ⟨hmem, hne⟩ := ht.below_of_mem_entry hc hs htr hg hentry
    exact hne (ht.ancestors_antisymm habove hmem)

/-- A state that declares a transition with a target is left by it, unless it is the root. -/
theorem WellFormed.source_mem_exit_iff (ht : t.WellFormed) (hc : c.EndsAt t leaf)
    (hs : s ∈ c.states) (htr : tr ∈ (t.node s).declared) (htarget : tr.target ≠ none) :
    s ∈ (t.plan c tr).exit ↔ s ≠ t.root := by
  constructor
  · rintro hmem rfl
    exact (ht.root_not_mem_plan hc hs htr).1 hmem
  · intro hroot
    obtain ⟨g, hg⟩ := Option.ne_none_iff_exists'.mp htarget
    have hknown := (ht.isPath_of_endsAt hc).known s hs
    obtain rfl := ht.source s tr htr
    rw [ht.mem_exit_iff hc hs htr hg hs]
    exact ht.end_not_mem_ancestors_domain hknown (ht.target _ tr htr g hg) (.inl rfl) hroot

/-- The target of a transition is entered, unless it is the root. -/
theorem WellFormed.target_mem_entry_iff (ht : t.WellFormed) (hc : c.EndsAt t leaf)
    (hs : s ∈ c.states) (htr : tr ∈ (t.node s).declared) (hg : tr.target = some g) :
    g ∈ (t.plan c tr).entry ↔ g ≠ t.root := by
  constructor
  · rintro hmem rfl
    exact (ht.root_not_mem_plan hc hs htr).2 hmem
  · intro hroot
    have hknown := (ht.isPath_of_endsAt hc).known s hs
    obtain rfl := ht.source s tr htr
    have hactive : g ∈ (t.plan c tr).configuration.states := by
      rw [(ht.declared_target hc hs htr hg).endsAt.path, ht.path_bottom]
      exact List.mem_append_left _ (mem_path.mpr (ht.self_mem_ancestors g))
    rw [ht.mem_entry_iff hc hs htr hg hactive]
    exact ht.end_not_mem_ancestors_domain hknown (ht.target _ tr htr g hg) (.inr rfl) hroot

end Target

/-! ### Selection -/

theorem mem_declared_of_mem_transitions {n : Node} {event : String} {tr : Transition}
    (h : tr ∈ n.transitions event) : tr ∈ n.declared := by
  refine List.mem_append_left _ ?_
  unfold Node.transitions at h
  cases hfind : n.on.find? event with
  | none => simp [hfind] at h
  | some trs =>
    simp only [hfind, Option.getD_some] at h
    obtain ⟨e, he, rfl⟩ := Option.map_eq_some_iff.mp hfind
    exact List.mem_flatten.mpr ⟨e.2, List.mem_map.mpr ⟨e, List.mem_of_find?_eq_some he, rfl⟩, h⟩

/-- The transition that handles an event is declared by an active state. -/
theorem exists_of_select {event : String} {tr : Transition} (h : t.select c event = some tr) :
    ∃ s ∈ c.states, tr ∈ (t.node s).declared := by
  obtain ⟨s, hs, hhead⟩ := List.exists_of_findSome?_eq_some h
  exact ⟨s, List.mem_reverse.mp hs, mem_declared_of_mem_transitions (List.mem_of_head? hhead)⟩

end StateTree

end Statechart
