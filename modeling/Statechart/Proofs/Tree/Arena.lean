import Statechart.Tree.Build

/-!
# The arena of a layout

A layout lists the states of a definition in pre-order and ties them together by number. The facts
here say that the ties fit: the children of a slot come after it, lie inside the layout, and name
it as their parent (`Layout.Wired.child`); every slot but the first has a parent that comes before
it and counts it among its children (`Layout.Wired.parent`).

Each subtree is treated as a part of the layout that starts at a known number (`Layout.HasPart`).
-/

namespace Statechart

/-! ### Parts of a layout -/

namespace Layout

variable {l : Layout}

/-- The slots from the number `index` on are those of `part`. -/
def HasPart (l : Layout) (index : Nat) (part : List Slot) : Prop :=
  ∃ front back, l.slots.toList = front ++ part ++ back ∧ front.length = index

theorem HasPart.left {k : Nat} {a b : List Slot} (h : l.HasPart k (a ++ b)) : l.HasPart k a := by
  obtain ⟨front, back, hl, hk⟩ := h
  exact ⟨front, b ++ back, by simp [hl], hk⟩

theorem HasPart.right {k : Nat} {a b : List Slot} (h : l.HasPart k (a ++ b)) :
    l.HasPart (k + a.length) b := by
  obtain ⟨front, back, hl, hk⟩ := h
  exact ⟨front ++ a, back, by simp [hl], by simp [hk]⟩

theorem HasPart.tail {k : Nat} {s : Slot} {rest : List Slot} (h : l.HasPart k (s :: rest)) :
    l.HasPart (k + 1) rest :=
  HasPart.right (a := [s]) h

theorem HasPart.bound {k : Nat} {part : List Slot} (h : l.HasPart k part) :
    k + part.length ≤ l.slots.size := by
  obtain ⟨front, back, hl, hk⟩ := h
  have := congrArg List.length hl
  simp at this
  omega

theorem HasPart.slot_eq {k : Nat} {s : Slot} {rest : List Slot} (h : l.HasPart k (s :: rest)) :
    l.slot ⟨k⟩ = s := by
  obtain ⟨front, back, hl, hk⟩ := h
  subst hk
  rw [slot, ← Array.getElem?_toList, hl]
  simp

theorem slot_of_ge {s : StateId} (h : l.slots.size ≤ s.index) : l.slot s = default := by
  simp [slot, h]

theorem lt_of_child {s c : StateId} (h : c ∈ (l.slot s).children) : s.index < l.slots.size := by
  rcases Nat.lt_or_ge s.index l.slots.size with hlt | hge
  · exact hlt
  · rw [slot_of_ge hge] at h
    cases h

theorem lt_of_parent {s p : StateId} (h : (l.slot s).parent = some p) :
    s.index < l.slots.size := by
  rcases Nat.lt_or_ge s.index l.slots.size with hlt | hge
  · exact hlt
  · rw [slot_of_ge hge] at h
    cases h

/-! ### Ties between slots -/

/-- The children of `s` come after it and name it as their parent. -/
def HasChildren (l : Layout) (s : StateId) : Prop :=
  ∀ c ∈ (l.slot s).children, s.index < c.index ∧ c.index < l.slots.size ∧
    (l.slot c).parent = some s ∧ (l.slot c).depth = (l.slot s).depth + 1

/-- The parent of `s` comes before it and counts it among its children. -/
def HasParent (l : Layout) (s : StateId) : Prop :=
  ∃ p, (l.slot s).parent = some p ∧ p.index < s.index ∧ s ∈ (l.slot p).children

/-- All slots are tied together as in a tree whose root is the first slot. -/
structure Wired (l : Layout) : Prop where
  nonempty : 0 < l.slots.size
  root : (l.slot l.root).parent = none ∧ (l.slot l.root).depth = 0
  child : ∀ s, l.HasChildren s
  parent : ∀ s, s.index < l.slots.size → s ≠ l.root → l.HasParent s

/-- A slot with a parent is not the first one, so its parent knows it. -/
theorem Wired.of_parent (hl : l.Wired) {s p : StateId} (h : (l.slot s).parent = some p) :
    p.index < s.index ∧ s.index < l.slots.size ∧ s ∈ (l.slot p).children := by
  have hs := lt_of_parent h
  have hne : s ≠ l.root := by
    rintro rfl
    rw [hl.root.1] at h
    cases h
  obtain ⟨q, hq, hlt, hmem⟩ := hl.parent s hs hne
  rw [h] at hq
  cases hq
  exact ⟨hlt, hs, hmem⟩

end Layout

namespace StateDef

mutual

@[simp] theorem length_slots : ∀ (d : StateDef) (id : String) (parent : Option StateId)
    (depth index : Nat), (d.slots id parent depth index).length = d.size
  | ⟨_, children⟩, id, _, depth, index => by
    simp [slots, size, length_slotsAll children id ⟨index⟩ (depth + 1) (index + 1)]

@[simp] theorem length_slotsAll : ∀ (ds : List StateDef) (id : String) (parent : StateId)
    (depth next : Nat), (slotsAll id parent depth next ds).length = sizeAll ds
  | [], _, _, _, _ => rfl
  | d :: rest, id, parent, depth, next => by
    simp [slotsAll, sizeAll, length_slots d, length_slotsAll rest]

end

theorem slot_of_hasPart {l : Layout} {d : StateDef} {id : String} {parent : Option StateId}
    {depth index : Nat} (h : l.HasPart index (d.slots id parent depth index)) :
    l.slot ⟨index⟩ =
      ⟨d.body, id, parent, depth, numbers (index + 1) d.children⟩ := by
  obtain ⟨body, children⟩ := d
  exact h.slot_eq

mutual

/-- In the part of a layout that belongs to a subtree all ties fit, but for the parent of the
subtree itself, which lies outside. -/
theorem slots_wired {l : Layout} : ∀ (d : StateDef) (id : String) (parent : Option StateId)
    (depth index : Nat), l.HasPart index (d.slots id parent depth index) →
    ∀ k, index ≤ k → k < index + d.size →
      l.HasChildren ⟨k⟩ ∧ (k = index ∨ l.HasParent ⟨k⟩)
  | ⟨body, children⟩, id, parent, depth, index, h, k, hk, hk' => by
    have hroot := slot_of_hasPart h
    have htail : l.HasPart (index + 1) (slotsAll id ⟨index⟩ (depth + 1) (index + 1) children) :=
      h.tail
    obtain ⟨hfirst, hrest⟩ := slotsAll_wired children id ⟨index⟩ (depth + 1) (index + 1) htail
    have hbound := htail.bound
    simp only [length_slotsAll] at hbound
    simp only [size] at hk'
    -- The first slot is that of the subtree itself; the others belong to its children.
    rcases Nat.eq_or_lt_of_le hk with rfl | hlt
    · refine ⟨?_, .inl rfl⟩
      intro c hc
      rw [hroot] at hc ⊢
      obtain ⟨hge, hc', hp, hd⟩ := hfirst c hc
      exact ⟨by simp only; omega, by omega, hp, hd⟩
    · obtain ⟨hc, hmem | hp⟩ := hrest k hlt (by omega)
      · refine ⟨hc, .inr ⟨⟨index⟩, (hfirst _ hmem).2.2.1, hlt, ?_⟩⟩
        rw [hroot]
        exact hmem
      · exact ⟨hc, .inr hp⟩

theorem slotsAll_wired {l : Layout} : ∀ (ds : List StateDef) (id : String) (parent : StateId)
    (depth next : Nat), l.HasPart next (slotsAll id parent depth next ds) →
    (∀ c ∈ numbers next ds, next ≤ c.index ∧ c.index < next + sizeAll ds ∧
      (l.slot c).parent = some parent ∧ (l.slot c).depth = depth) ∧
    ∀ k, next ≤ k → k < next + sizeAll ds →
      l.HasChildren ⟨k⟩ ∧ (⟨k⟩ ∈ numbers next ds ∨ l.HasParent ⟨k⟩)
  | [], _, _, _, next, _ =>
    ⟨fun _ hc => by simp [numbers] at hc, fun k hk hk' => by simp [sizeAll] at hk'; omega⟩
  | d :: rest, id, parent, depth, next, h => by
    have hd := h.left
    have hrest := h.right
    rw [length_slots] at hrest
    have hslot := slot_of_hasPart hd
    have hsize : 0 < d.size := by
      obtain ⟨_, _⟩ := d
      simp [size]
    obtain ⟨hfirst, hlater⟩ := slotsAll_wired rest id parent depth (next + d.size) hrest
    constructor
    · intro c hc
      simp only [numbers, List.mem_cons] at hc
      simp only [sizeAll]
      rcases hc with rfl | hc
      · exact ⟨Nat.le_refl _, by simp only; omega, by rw [hslot], by rw [hslot]⟩
      · obtain ⟨hge, hlt, hp, hdepth⟩ := hfirst c hc
        exact ⟨by omega, by omega, hp, hdepth⟩
    · intro k hk hk'
      simp only [sizeAll] at hk'
      simp only [numbers, List.mem_cons]
      rcases Nat.lt_or_ge k (next + d.size) with hlt | hge
      · obtain ⟨hc, rfl | hp⟩ := slots_wired d _ _ depth next hd k hk hlt
        · exact ⟨hc, .inl (.inl rfl)⟩
        · exact ⟨hc, .inr hp⟩
      · obtain ⟨hc, hmem | hp⟩ := hlater k hge (by omega)
        · exact ⟨hc, .inl (.inr hmem)⟩
        · exact ⟨hc, .inr hp⟩

end

end StateDef

/-- The layout of a definition is tied together as a tree. -/
theorem Layout.wired_of (d : Definition) : (Layout.of d).Wired := by
  have hpart : (Layout.of d).HasPart 0 (d.root.slots d.id none 0 0) :=
    ⟨[], [], by simp [Layout.of], rfl⟩
  have hsize : (Layout.of d).slots.size = d.root.size := by simp [Layout.of]
  have hslot := StateDef.slot_of_hasPart hpart
  constructor
  case nonempty =>
    rw [hsize]
    cases d.root
    simp [StateDef.size]
  case root =>
    rw [Layout.root, hslot]
    exact ⟨rfl, rfl⟩
  case child =>
    intro s c hc
    have hs := Layout.lt_of_child hc
    exact (StateDef.slots_wired d.root _ _ _ _ hpart s.index (Nat.zero_le _)
      (by omega)).1 c hc
  case parent =>
    intro s hs hne
    rcases (StateDef.slots_wired d.root _ _ _ _ hpart s.index (Nat.zero_le _) (by omega)).2 with
      h0 | hp
    · exact absurd (by rw [Layout.root, ← h0]) hne
    · exact hp

end Statechart
