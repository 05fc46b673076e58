import Mathlib.Data.List.Count
import Mathlib.Data.List.Nodup
import Statechart.Proofs.Tree.Image
import Statechart.Proofs.Tree.Meet
import Statechart.Proofs.Tree.Qualified

/-!
# The order of the nodes

`StateTree.Preorder` is what the numbers of a tree mean: a state comes before the states below it,
which fill one range of numbers behind it, and children come one after another in the order of their
keys. Every tree that was built is laid out in this way (`StateTree.preorder_of_build`).

A subtree stands alone: in a layout that has nothing else its slots are the same
(`Layout.HasPart.slot_eq_slot`), so no tie of theirs leaves it but that of its root to the parent.
-/

namespace Statechart

/-- The nodes of a tree in pre-order. -/
structure StateTree.Preorder (t : StateTree) : Prop where
  nonempty : 0 < t.size
  root_parent : (t.node t.root).parent = none
  root_depth : (t.node t.root).depth = 0
  /-- every other state has one parent, and is counted once among its children and nowhere else -/
  parent : ∀ s : StateId, s.index < t.size → s ≠ t.root →
    ∃ p, (t.node s).parent = some p ∧ p.index < s.index ∧
      (t.node s).depth = (t.node p).depth + 1 ∧
      (t.node s).id = (t.node p).id ++ "." ++ (t.node s).key ∧
      (t.node p).children.count s = 1 ∧ ∀ q, q ≠ p → s ∉ (t.node q).children
  child : ∀ s c, c ∈ (t.node s).children → c.index < t.size ∧ (t.node c).parent = some s
  ascending_index : ∀ s, (t.node s).children.Pairwise fun a b => a.index < b.index
  ascending_key : ∀ s, (t.node s).children.Pairwise fun a b => (t.node a).key < (t.node b).key
  /-- a state and the states below it fill one range of numbers -/
  range : ∀ s : StateId, s.index < t.size → ∃ stop, s.index < stop ∧ stop ≤ t.size ∧
    ∀ m, t.isDescendant m s = true ↔ s.index ≤ m.index ∧ m.index < stop
  initial_compound : ∀ s, (t.node s).children ≠ [] →
    ∃ c ∈ (t.node s).children, (t.node s).initial = some c
  initial_leaf : ∀ s, (t.node s).children = [] → (t.node s).initial = none

/-! ### Numbers of siblings -/

namespace StateDef

theorem le_of_mem_numbers {next : Nat} {siblings : List StateDef} {n : StateId}
    (h : n ∈ numbers next siblings) : next ≤ n.index := by
  induction siblings generalizing next with
  | nil => cases h
  | cons d rest ih =>
    rcases List.mem_cons.mp h with rfl | h
    · exact Nat.le_refl _
    · exact Nat.le_trans (Nat.le_add_right _ _) (ih h)

theorem pairwise_numbers (next : Nat) (siblings : List StateDef) :
    (numbers next siblings).Pairwise fun a b => a.index < b.index := by
  induction siblings generalizing next with
  | nil => exact .nil
  | cons d rest ih =>
    refine List.pairwise_cons.mpr ⟨fun n hn => ?_, ih _⟩
    have hle := le_of_mem_numbers hn
    have hpos := d.size_pos
    simp only
    omega

end StateDef

/-! ### A subtree alone -/

namespace Layout

variable {l l' : Layout} {part : List Slot} {first k : Nat} {d : StateDef} {id : String}
  {parent : Option StateId} {depth : Nat}

/-- The slots of a part are the same in every layout that has it. -/
theorem HasPart.slot_eq_slot (h : l.HasPart first part) (h' : l'.HasPart first part)
    (hk : first ≤ k) (hk' : k < first + part.length) : l.slot ⟨k⟩ = l'.slot ⟨k⟩ := by
  have hslot {l : Layout} (h : l.HasPart first part) :
      l.slot ⟨k⟩ = (part[k - first]?).getD default := by
    obtain ⟨front, back, hl, rfl⟩ := h
    rw [slot, ← Array.getElem?_toList, hl, List.append_assoc,
      List.getElem?_append_right hk, List.getElem?_append_left (by omega)]
  rw [hslot h, hslot h']

/-- **No ties leave a subtree** but that of its root. -/
theorem HasPart.closed (h : l.HasPart first (d.slots id parent depth first)) (hk : first ≤ k)
    (hk' : k < first + d.size) :
    (∀ c ∈ (l.slot ⟨k⟩).children, c.index < first + d.size) ∧
      (k = first ∨ ∃ p, (l.slot ⟨k⟩).parent = some p ∧ first ≤ p.index) := by
  -- The subtree alone, with empty slots before it.
  let alone : Layout :=
    ⟨(List.replicate first default ++ d.slots id parent depth first).toArray⟩
  have halone : alone.HasPart first (d.slots id parent depth first) :=
    ⟨List.replicate first default, [], by simp [alone], by simp⟩
  have hsize : alone.slots.size = first + d.size := by simp [alone]
  rw [h.slot_eq_slot halone hk (by simpa using hk')]
  obtain ⟨hchildren, hparent⟩ := StateDef.slots_wired d id parent depth first halone k hk hk'
  refine ⟨fun c hc => ?_, hparent.imp_right ?_⟩
  · rw [← hsize]
    exact (hchildren c hc).2.1
  · rintro ⟨p, hp, -, hmem⟩
    refine ⟨p, hp, ?_⟩
    by_contra hlt
    have hempty : alone.slot p = default := by
      have hbefore : p.index < (List.replicate first (default : Slot)).length := by
        rw [List.length_replicate]
        omega
      rw [slot, ← Array.getElem?_toList, List.getElem?_append_left hbefore,
        List.getElem?_eq_getElem hbefore, List.getElem_replicate]
      rfl
    rw [hempty] at hmem
    cases hmem

end Layout

/-! ### States at places -/

namespace Definition

namespace Seat

variable {d : Definition} {n : StateId} {place : List String} {s : StateDef} (h : d.Seat n place s)

include h

/-- The subtree of a state has the numbers behind it. -/
theorem size_le : n.index + s.size ≤ (Layout.of d).slots.size := by
  obtain ⟨parent, depth, hpart⟩ := h.part
  simpa using hpart.bound

/-- **The states below a state fill one range of numbers.** -/
theorem mem_ancestors_iff (ht : (Layout.of d).toTree.WellFormed) (m : StateId) :
    n ∈ (Layout.of d).toTree.ancestors m ↔ n.index ≤ m.index ∧ m.index < n.index + s.size := by
  obtain ⟨parent, depth, hpart⟩ := h.part
  have hpos := s.size_pos
  constructor
  · intro hmem
    induction m using ht.upward with
    | top m hm =>
      rw [StateTree.ancestors_of_parent_none hm, List.mem_singleton] at hmem
      subst hmem
      omega
    | below m p hp ih =>
      rcases (ht.mem_ancestors_cons hp).mp hmem with rfl | hmem
      · omega
      · have hrange := ih hmem
        have hlt := (ht.parent_lt m p hp).1
        have hchild := (ht.mem_children m p).mpr hp
        rw [Layout.children_toTree] at hchild
        have := (hpart.closed hrange.1 hrange.2).1 m hchild
        omega
  · intro hrange
    induction m using ht.upward with
    | top m hm =>
      rcases (hpart.closed hrange.1 hrange.2).2 with heq | ⟨p, hp, -⟩
      · rw [StateId.eq_of_index heq]
        exact ht.self_mem_ancestors n
      · rw [Layout.parent_toTree] at hm
        exact nomatch hm.symm.trans hp
    | below m p hp ih =>
      rcases (hpart.closed hrange.1 hrange.2).2 with heq | ⟨q, hq, hge⟩
      · rw [StateId.eq_of_index heq]
        exact ht.self_mem_ancestors n
      · rw [← Layout.parent_toTree, hp] at hq
        cases hq
        have hlt := (ht.parent_lt m p hp).1
        exact (ht.mem_ancestors_cons hp).mpr (.inr (ih ⟨hge, by omega⟩))

/-- The id of a state goes on from that of the state above with a dot and the key. -/
theorem node_id_eq {p : StateId} (hp : ((Layout.of d).toTree.node n).parent = some p) :
    ((Layout.of d).toTree.node n).id =
      ((Layout.of d).toTree.node p).id ++ "." ++ ((Layout.of d).toTree.node n).key := by
  rw [Layout.parent_toTree] at hp
  rcases h.parent with ⟨-, hnone⟩ | ⟨q, above, key, up, rfl, hq, hup, -, hkey⟩
  · exact nomatch hnone.symm.trans hp
  · obtain rfl := Option.some.inj (hq.symm.trans hp)
    have hnode : ((Layout.of d).toTree.node n).key = key := by
      rw [Layout.node_toTree h.lt, ← hkey]
      exact congrArg StateBody.key h.body
    rw [h.node_id, hup.node_id, hnode, idOf, idOf, ← List.cons_append,
      Text.join_append (by simp) (by simp)]
    rfl

theorem ascending_index :
    ((Layout.of d).toTree.node n).children.Pairwise fun a b => a.index < b.index := by
  rw [Layout.children_toTree, h.children]
  exact StateDef.pairwise_numbers _ _

/-- **Siblings come in the order of their keys.** -/
theorem ascending_key :
    ((Layout.of d).toTree.node n).children.Pairwise fun a b =>
      ((Layout.of d).toTree.node a).key < ((Layout.of d).toTree.node b).key := by
  have hordered := d.ordered.at? h.found
  have hascending : (s.children.map StateDef.key).Pairwise (· < ·) := by
    obtain ⟨body, children⟩ := s
    exact List.pairwise_map.mpr hordered.1
  rw [← h.keys_children] at hascending
  rw [Layout.children_toTree]
  exact List.pairwise_map.mp hascending

end Seat

end Definition

/-- **The nodes of a tree that was built lie in pre-order.** -/
theorem StateTree.preorder_of_build {d : Definition} {catalog : Catalog} {t : StateTree}
    (h : StateTree.build d catalog = .ok t) : t.Preorder := by
  have ht := StateTree.wellFormed_of_build h
  obtain ⟨-, rfl⟩ := StateTree.defects_of_build h
  have hseat (s : StateId) (hs : s.index < (Layout.of d).toTree.size) :
      ∃ place state, d.Seat s place state := by
    obtain ⟨place, state, -, h⟩ := Definition.exists_place (by simpa using hs)
    exact ⟨place, state, h⟩
  -- A number that belongs to no state has no children.
  have hnone (s : StateId) (hs : (Layout.of d).toTree.size ≤ s.index) :
      ((Layout.of d).toTree.node s).children = [] := by
    rw [Layout.children_toTree, Layout.slot_of_ge (by simpa using hs)]
    rfl
  have hindex (s : StateId) :
      ((Layout.of d).toTree.node s).children.Pairwise fun a b => a.index < b.index := by
    rcases Nat.lt_or_ge s.index (Layout.of d).toTree.size with hs | hs
    · obtain ⟨place, state, h⟩ := hseat s hs
      exact h.ascending_index
    · rw [hnone s hs]
      exact .nil
  constructor
  case nonempty => exact ht.nonempty
  case root_parent => exact ht.root_parent
  case root_depth => exact ht.depth_root
  case parent =>
    intro s hs hne
    obtain ⟨p, hp⟩ := ht.exists_parent s hs hne
    have hmem := (ht.mem_children s p).mpr hp
    obtain ⟨place, state, h⟩ := hseat s hs
    refine ⟨p, hp, (ht.parent_lt s p hp).1, ht.depth_child s p hp, h.node_id_eq hp, ?_, ?_⟩
    · have hnodup : ((Layout.of d).toTree.node p).children.Nodup :=
        (hindex p).imp fun hlt => mt (congrArg StateId.index) (Nat.ne_of_lt hlt)
      exact List.count_eq_one_of_mem hnodup hmem
    · intro q hne hq
      exact hne (Option.some.inj (((ht.mem_children s q).mp hq).symm.trans hp))
  case child =>
    intro s c hc
    have hp := (ht.mem_children c s).mp hc
    exact ⟨(ht.parent_lt c s hp).2, hp⟩
  case ascending_index => exact hindex
  case ascending_key =>
    intro s
    rcases Nat.lt_or_ge s.index (Layout.of d).toTree.size with hs | hs
    · obtain ⟨place, state, h⟩ := hseat s hs
      exact h.ascending_key
    · rw [hnone s hs]
      exact .nil
  case range =>
    intro s hs
    obtain ⟨place, state, h⟩ := hseat s hs
    have hpos := state.size_pos
    refine ⟨s.index + state.size, by omega, by simpa using h.size_le, fun m => ?_⟩
    rw [StateTree.isDescendant, List.contains_iff_mem]
    exact h.mem_ancestors_iff ht m
  case initial_compound =>
    intro s hchildren
    cases hinitial : ((Layout.of d).toTree.node s).initial with
    | none => exact absurd (ht.initial_none s hinitial) hchildren
    | some c => exact ⟨c, ht.initial_mem s c hinitial, rfl⟩
  case initial_leaf =>
    intro s hchildren
    cases hinitial : ((Layout.of d).toTree.node s).initial with
    | none => rfl
    | some c => exact absurd (hchildren ▸ ht.initial_mem s c hinitial) List.not_mem_nil

/-- A radio that is on receives one of two bands. -/
def radio : Definition := .ofRoot <| Draft.toDef <|
  (((Draft.new "radio").initial "off").state (Draft.new "off")).state
    ((((Draft.new "on").initial "fm").state (Draft.new "fm")).state (Draft.new "am"))

def radioTree : StateTree := (Layout.of radio).toTree

theorem build_radio : StateTree.build radio .everything = .ok radioTree := rfl

/-- The bands of the radio stand between the state above them and the one after it. -/
theorem radio_preorder : radioTree.Preorder ∧
    radioTree.nodes.toList.map Node.id =
      ["radio", "radio.off", "radio.on", "radio.on.am", "radio.on.fm"] :=
  ⟨StateTree.preorder_of_build build_radio, rfl⟩

end Statechart
