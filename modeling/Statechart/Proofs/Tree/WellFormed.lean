import Statechart.Proofs.Tree.Arena

/-!
# Well-formed trees

`StateTree.WellFormed` collects what later facts about trees rest on: parents and children agree,
a state without an initial child has no children at all, transitions start where they are declared
and lead to a state of the tree, and the delays of a state are pairwise different and in order.
Every tree that was built has these properties (`StateTree.wellFormed_of_build`).
-/

namespace Statechart

/-- The transitions that a state declares, on events and after delays. -/
def Node.declared (n : Node) : List Transition :=
  n.on.values.flatten ++ n.after.map Delay.transition

/-- What holds of a tree that was built. -/
structure StateTree.WellFormed (t : StateTree) : Prop where
  nonempty : 0 < t.size
  /-- the root is the only state without a parent -/
  root_parent : (t.node t.root).parent = none
  exists_parent : ∀ s, s.index < t.size → s ≠ t.root → ∃ p, (t.node s).parent = some p
  parent_lt : ∀ s p, (t.node s).parent = some p → p.index < s.index ∧ s.index < t.size
  mem_children : ∀ s p, s ∈ (t.node p).children ↔ (t.node s).parent = some p
  depth_root : (t.node t.root).depth = 0
  depth_child : ∀ s p, (t.node s).parent = some p → (t.node s).depth = (t.node p).depth + 1
  initial_mem : ∀ s c, (t.node s).initial = some c → c ∈ (t.node s).children
  /-- a state that has no initial child is a leaf -/
  initial_none : ∀ s, (t.node s).initial = none → (t.node s).children = []
  source : ∀ s, ∀ tr ∈ (t.node s).declared, tr.source = s
  target : ∀ s, ∀ tr ∈ (t.node s).declared, ∀ g, tr.target = some g → g.index < t.size
  after : ∀ s, (t.node s).after.Pairwise fun a b => a.millis < b.millis

/-! ### Delays in order -/

namespace Delay

theorem mem_insert {d e : Delay} {l : List Delay} : e ∈ d.insert l ↔ e = d ∨ e ∈ l := by
  induction l with
  | nil => simp [insert]
  | cons a rest ih =>
    simp only [insert]
    split
    · simp
    · simp only [List.mem_cons, ih]
      exact or_left_comm

theorem mem_sort {e : Delay} {l : List Delay} : e ∈ sort l ↔ e ∈ l := by
  induction l with
  | nil => simp [sort]
  | cons a rest ih =>
    rw [sort, List.foldr_cons, mem_insert]
    rw [sort] at ih
    simp [ih]

/-- Inserting a delay of a new length keeps a list in strictly ascending order. -/
theorem ascending_insert {d : Delay} {l : List Delay}
    (h : l.Pairwise fun a b => a.millis < b.millis) (hd : ∀ e ∈ l, e.millis ≠ d.millis) :
    (d.insert l).Pairwise fun a b => a.millis < b.millis := by
  induction l with
  | nil => simp [insert]
  | cons a rest ih =>
    obtain ⟨ha, hrest⟩ := List.pairwise_cons.mp h
    have hne : a.millis ≠ d.millis := hd a (by simp)
    simp only [insert]
    split
    · rename_i hle
      refine List.pairwise_cons.mpr ⟨?_, h⟩
      intro e he
      rcases List.mem_cons.mp he with rfl | he
      · omega
      · have := ha e he
        omega
    · rename_i hgt
      refine List.pairwise_cons.mpr ⟨?_, ih hrest (fun e he => hd e (by simp [he]))⟩
      intro e he
      rcases mem_insert.mp he with rfl | he
      · omega
      · exact ha e he

/-- Sorting delays of pairwise different lengths puts them in strictly ascending order. -/
theorem ascending_sort {l : List Delay} (h : (l.map millis).Nodup) :
    (sort l).Pairwise fun a b => a.millis < b.millis := by
  induction l with
  | nil => simp [sort]
  | cons a rest ih =>
    obtain ⟨ha, hrest⟩ := List.nodup_cons.mp h
    apply ascending_insert (ih hrest)
    intro e he heq
    apply ha
    have hmem : e ∈ rest := mem_sort.mp he
    exact List.mem_map.mpr ⟨e, hmem, heq⟩

end Delay

namespace Layout

variable {l : Layout}

/-- Without a defect no two keys of delays name the same length. -/
theorem nodup_millis_of_delayDefects {catalog : Catalog} {s : StateId}
    {entries : List (String × TransitionDef)} {seen : List Nat}
    (h : l.delayDefects catalog s seen entries = []) :
    (entries.filterMap fun e => readMillis? e.1).Nodup ∧
      ∀ millis ∈ entries.filterMap (fun e => readMillis? e.1), millis ∉ seen := by
  induction entries generalizing seen with
  | nil => simp
  | cons e rest ih =>
    obtain ⟨key, t⟩ := e
    simp only [delayDefects] at h
    cases hread : readMillis? key with
    | none => simp [hread] at h
    | some millis =>
      simp only [hread] at h
      split at h
      · cases h
      · rename_i hseen
        -- The length is new, and it is seen when the rest is looked at.
        obtain ⟨hnodup, hnew⟩ := ih (List.append_eq_nil_iff.mp h).2
        simp only [List.filterMap_cons, hread, List.nodup_cons, List.mem_cons, forall_eq_or_imp]
        refine ⟨⟨fun hmem => hnew millis hmem (by simp), hnodup⟩, hseen, fun m hm hm' => ?_⟩
        exact hnew m hm (by simp [hm'])

/-! ### Nodes and slots -/

@[simp] theorem size_toTree : l.toTree.size = l.slots.size := by
  simp [toTree, StateTree.size, states]

theorem node_toTree {s : StateId} (h : s.index < l.slots.size) :
    l.toTree.node s = l.node l.actions l.services s := by
  simp [toTree, StateTree.node, StateTree.node?, states, h]

theorem node_toTree_of_ge {s : StateId} (h : l.slots.size ≤ s.index) :
    l.toTree.node s = default := by
  simp [toTree, StateTree.node, StateTree.node?, states, h]

@[simp] theorem parent_toTree (s : StateId) : (l.toTree.node s).parent = (l.slot s).parent := by
  rcases Nat.lt_or_ge s.index l.slots.size with h | h
  · rw [node_toTree h]
    rfl
  · rw [node_toTree_of_ge h, slot_of_ge h]
    rfl

@[simp] theorem children_toTree (s : StateId) :
    (l.toTree.node s).children = (l.slot s).children := by
  rcases Nat.lt_or_ge s.index l.slots.size with h | h
  · rw [node_toTree h]
    rfl
  · rw [node_toTree_of_ge h, slot_of_ge h]
    rfl

@[simp] theorem depth_toTree (s : StateId) : (l.toTree.node s).depth = (l.slot s).depth := by
  rcases Nat.lt_or_ge s.index l.slots.size with h | h
  · rw [node_toTree h]
    rfl
  · rw [node_toTree_of_ge h, slot_of_ge h]
    rfl

theorem mem_children_of_child? {s c : StateId} {key : String} (h : l.child? s key = some c) :
    c ∈ (l.slot s).children :=
  List.mem_of_find?_eq_some h

/-! ### Targets -/

theorem Wired.lt_of_descend? (hl : l.Wired) {keys : List String} {s c : StateId}
    (hs : s.index < l.slots.size) (h : l.descend? s keys = some c) : c.index < l.slots.size := by
  induction keys generalizing s with
  | nil =>
    cases h
    exact hs
  | cons key rest ih =>
    simp only [descend?, Option.bind_eq_some_iff] at h
    obtain ⟨c', hc', hrest⟩ := h
    exact ih (hl.child s c' (mem_children_of_child? hc')).2.1 hrest

/-- A target leads to a state of the layout. -/
theorem Wired.lt_of_resolve? (hl : l.Wired) {s c : StateId} {target : String}
    (hs : s.index < l.slots.size) (h : l.resolve? s target = some c) :
    c.index < l.slots.size := by
  have hroot : l.root.index < l.slots.size := hl.nonempty
  unfold resolve? at h
  split at h
  · split at h
    · cases h
    · split at h
      · exact hl.lt_of_descend? hroot h
      · cases h
  · exact hl.lt_of_descend? hs h
  · refine hl.lt_of_descend? ?_ h
    cases hp : (l.slot s).parent with
    | none => exact hroot
    | some p =>
      obtain ⟨hlt, hs, _⟩ := hl.of_parent hp
      exact Nat.lt_trans hlt hs

theorem mem_declared_node {actions services : List String} {s : StateId} {tr : Transition}
    (h : tr ∈ (l.node actions services s).declared) :
    ∃ decl, tr = l.transition actions s decl := by
  simp only [Node.declared, node, List.mem_append, List.mem_flatten, List.mem_map] at h
  rcases h with ⟨trs, htrs, htr⟩ | ⟨d, hd, rfl⟩
  · simp only [Dict.values, Dict.mapValues, List.map_map, List.mem_map, Function.comp] at htrs
    obtain ⟨e, _, rfl⟩ := htrs
    obtain ⟨decl, _, rfl⟩ := List.mem_map.mp htr
    exact ⟨decl, rfl⟩
  · rw [delays, Delay.mem_sort] at hd
    obtain ⟨e, _, he⟩ := List.mem_filterMap.mp hd
    obtain ⟨millis, _, rfl⟩ := Option.map_eq_some_iff.mp he
    exact ⟨e.2, rfl⟩

theorem exists_of_mem_declared {s : StateId} {tr : Transition}
    (h : tr ∈ (l.toTree.node s).declared) :
    s.index < l.slots.size ∧ ∃ decl, tr = l.transition l.actions s decl := by
  rcases Nat.lt_or_ge s.index l.slots.size with hlt | hge
  · rw [node_toTree hlt] at h
    exact ⟨hlt, mem_declared_node h⟩
  · rw [node_toTree_of_ge hge] at h
    cases h

/-! ### Defects of a state -/

/-- Without a defect the initial child is there exactly if there are children. -/
theorem initial_of_initialDefects {s : StateId} (h : l.initialDefects s = []) :
    ((l.slot s).body.initial.bind (l.child? s) = none → (l.slot s).children = []) := by
  intro hnone
  unfold initialDefects at h
  cases hi : (l.slot s).body.initial with
  | none =>
    cases hc : (l.slot s).children with
    | nil => rfl
    | cons c rest => simp [hi, hc] at h
  | some initial =>
    simp only [hi, Option.bind_some] at hnone
    cases hc : (l.slot s).children with
    | nil => rfl
    | cons c rest => simp [hi, hc, hnone] at h

theorem ascending_delays {catalog : Catalog} {actions : List String} {s : StateId}
    (h : l.delayDefects catalog s [] (l.slot s).body.after.entries = []) :
    (l.delays actions s).Pairwise fun a b => a.millis < b.millis := by
  apply Delay.ascending_sort
  -- The lengths of the delays are the keys that can be read.
  have hmillis : ((l.slot s).body.after.entries.filterMap fun e =>
      (readMillis? e.1).map fun millis => (⟨millis, Event.delayName millis (l.slot s).id,
        l.transition actions s e.2⟩ : Delay)).map Delay.millis =
      (l.slot s).body.after.entries.filterMap fun e => readMillis? e.1 := by
    simp [List.map_filterMap, Option.map_map, Function.comp_def]
  rw [hmillis]
  exact (nodup_millis_of_delayDefects h).1

end Layout

theorem Definition.stateDefects_eq_nil {d : Definition} {catalog : Catalog}
    (h : d.defects catalog = []) {s : StateId} (hs : s.index < (Layout.of d).slots.size) :
    (Layout.of d).stateDefects catalog s = [] := by
  simp only [Definition.defects, List.append_eq_nil_iff, List.flatMap_eq_nil_iff] at h
  exact h.2 s (List.mem_map.mpr ⟨s.index, List.mem_range.mpr hs, rfl⟩)

/-- A definition without defects has a well-formed tree. -/
theorem Definition.wellFormed_toTree {d : Definition} {catalog : Catalog}
    (h : d.defects catalog = []) : (Layout.of d).toTree.WellFormed := by
  have hl := Layout.wired_of d
  have hdefects : ∀ s : StateId, s.index < (Layout.of d).slots.size →
      (Layout.of d).initialDefects s = [] ∧ (Layout.of d).delayDefects catalog s []
        ((Layout.of d).slot s).body.after.entries = [] := by
    intro s hs
    have hnil := Definition.stateDefects_eq_nil h hs
    simp only [Layout.stateDefects, List.append_eq_nil_iff] at hnil
    exact ⟨hnil.1.1.1.1.1, hnil.1.2⟩
  constructor
  case nonempty => simpa using hl.nonempty
  case root_parent =>
    rw [Layout.parent_toTree]
    exact hl.root.1
  case exists_parent =>
    intro s hs hne
    obtain ⟨p, hp, _⟩ := hl.parent s (by simpa using hs) hne
    exact ⟨p, by simpa using hp⟩
  case parent_lt =>
    intro s p hp
    obtain ⟨hlt, hs, _⟩ := hl.of_parent (s := s) (p := p) (by simpa using hp)
    exact ⟨hlt, by simpa using hs⟩
  case mem_children =>
    intro s p
    simp only [Layout.children_toTree, Layout.parent_toTree]
    constructor
    · intro hs
      exact (hl.child p s hs).2.2.1
    · intro hp
      exact (hl.of_parent hp).2.2
  case depth_root =>
    rw [Layout.depth_toTree]
    exact hl.root.2
  case depth_child =>
    intro s p hp
    simp only [Layout.parent_toTree, Layout.depth_toTree] at hp ⊢
    exact (hl.child p s (hl.of_parent hp).2.2).2.2.2
  case initial_mem =>
    intro s c hc
    rcases Nat.lt_or_ge s.index (Layout.of d).slots.size with hs | hs
    · rw [Layout.node_toTree hs] at hc
      obtain ⟨key, _, hkey⟩ := Option.bind_eq_some_iff.mp hc
      rw [Layout.children_toTree]
      exact Layout.mem_children_of_child? hkey
    · rw [Layout.node_toTree_of_ge hs] at hc
      cases hc
  case initial_none =>
    intro s hnone
    rcases Nat.lt_or_ge s.index (Layout.of d).slots.size with hs | hs
    · rw [Layout.children_toTree]
      rw [Layout.node_toTree hs] at hnone
      exact Layout.initial_of_initialDefects (hdefects s hs).1 hnone
    · rw [Layout.node_toTree_of_ge hs]
      rfl
  case source =>
    intro s tr htr
    obtain ⟨_, decl, rfl⟩ := Layout.exists_of_mem_declared htr
    rfl
  case target =>
    intro s tr htr g hg
    obtain ⟨hs, decl, rfl⟩ := Layout.exists_of_mem_declared htr
    obtain ⟨target, _, htarget⟩ := Option.bind_eq_some_iff.mp hg
    simpa using hl.lt_of_resolve? hs htarget
  case after =>
    intro s
    rcases Nat.lt_or_ge s.index (Layout.of d).slots.size with hs | hs
    · rw [Layout.node_toTree hs]
      exact Layout.ascending_delays (hdefects s hs).2
    · rw [Layout.node_toTree_of_ge hs]
      exact List.Pairwise.nil

/-- **Every tree that was built is well-formed.** -/
theorem StateTree.wellFormed_of_build {d : Definition} {catalog : Catalog} {t : StateTree}
    (h : StateTree.build d catalog = .ok t) : t.WellFormed := by
  unfold StateTree.build at h
  split at h
  · rename_i hnil
    cases h
    exact Definition.wellFormed_toTree hnil
  · cases h

end Statechart
