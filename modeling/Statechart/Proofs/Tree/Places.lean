import Statechart.Proofs.Tree.Texts
import Statechart.Proofs.Tree.WellFormed

/-!
# Places

A state of a definition is found by the keys on the way from the root to it, its *place*
(`StateDef.at?`). In the layout it has a number, and a seat says that number and place belong
together (`Definition.Seat`). The states in pre-order are numbered in that order
(`Definition.seat_of_places`), a child is found under its key in both (`Seat.child?`), and a target
leads to the state at the place that it names (`Names`, `Seat.resolve?`).
-/

namespace Statechart

/-! ### States at places -/

/-- The target, declared at a place of the machine, names another one. -/
inductive Names (machine : String) (place : List String) : String → List String → Prop
  /-- `#machine` and then keys from the root down -/
  | absolute {keys : List String} (h : Text.Dotless (machine :: keys)) :
      Names machine place ("#" ++ Text.join (machine :: keys)) keys
  /-- a dot and then keys from the declaring state down -/
  | below {keys : List String} (hne : keys ≠ []) (h : Text.Dotless keys) :
      Names machine place ("." ++ Text.join keys) (place ++ keys)
  /-- keys from the parent of the declaring state down, or from the root if it has none -/
  | beside {keys : List String} (hne : keys ≠ []) (h : Text.Dotless keys)
      (hstart : ∀ c ∈ (Text.join keys).toList.head?, c ≠ '#' ∧ c ≠ '.') :
      Names machine place (Text.join keys) (place.dropLast ++ keys)

section Names

variable {machine target : String} {place other : List String} {rest : List Char}

theorem toList_hash (text : String) : ("#" ++ text).toList = '#' :: text.toList := by
  rw [String.toList_append]
  rfl

theorem toList_dot (text : String) : ("." ++ text).toList = '.' :: text.toList := by
  rw [String.toList_append]
  rfl

theorem names_of_hash (htarget : target.toList = '#' :: rest) :
    Names machine place target other ↔ Text.split (String.ofList rest) = machine :: other := by
  constructor
  · intro h
    cases h with
    | @absolute keys h =>
      rw [toList_hash, List.cons.injEq] at htarget
      rw [← htarget.2, String.ofList_toList, Text.split_join (by simp) h]
    | below hne h =>
      rw [toList_dot, List.cons.injEq] at htarget
      exact absurd htarget.1 (by decide)
    | beside hne h hstart => exact absurd rfl (hstart '#' (by rw [htarget]; rfl)).1
  · intro h
    have hdotless := Text.dotless_split (String.ofList rest)
    have hjoin := Text.join_split (String.ofList rest)
    rw [h] at hdotless hjoin
    have hsame : target = "#" ++ Text.join (machine :: other) := by
      rw [← String.toList_inj, toList_hash, hjoin, String.toList_ofList, htarget]
    rw [hsame]
    exact .absolute hdotless

theorem names_of_dot (htarget : target.toList = '.' :: rest) :
    Names machine place target other ↔ other = place ++ Text.split (String.ofList rest) := by
  constructor
  · intro h
    cases h with
    | absolute h =>
      rw [toList_hash, List.cons.injEq] at htarget
      exact absurd htarget.1 (by decide)
    | below hne h =>
      rw [toList_dot, List.cons.injEq] at htarget
      rw [← htarget.2, String.ofList_toList, Text.split_join hne h]
    | beside hne h hstart => exact absurd rfl (hstart '.' (by rw [htarget]; rfl)).2
  · rintro rfl
    have hsame : target = "." ++ Text.join (Text.split (String.ofList rest)) := by
      rw [← String.toList_inj, toList_dot, Text.join_split, String.toList_ofList, htarget]
    rw [hsame, Text.join_split]
    nth_rewrite 1 [← Text.join_split (String.ofList rest)]
    exact .below (Text.split_ne_nil _) (Text.dotless_split _)

theorem names_of_plain (htarget : ∀ c ∈ target.toList.head?, c ≠ '#' ∧ c ≠ '.') :
    Names machine place target other ↔ other = place.dropLast ++ Text.split target := by
  constructor
  · intro h
    cases h with
    | absolute h => exact absurd rfl (htarget '#' (by rw [toList_hash]; rfl)).1
    | below hne h => exact absurd rfl (htarget '.' (by rw [toList_dot]; rfl)).2
    | beside hne h hstart => rw [Text.split_join hne h]
  · rintro rfl
    nth_rewrite 1 [← Text.join_split target]
    refine .beside (Text.split_ne_nil _) (Text.dotless_split _) ?_
    rwa [Text.join_split]

end Names

namespace StateDef

/-- The state that the keys lead to. -/
def at? (d : StateDef) : List String → Option StateDef
  | [] => some d
  | key :: rest => (d.child? key).bind fun c => c.at? rest

mutual

/-- All states in pre-order, each with the keys that lead to it. -/
def places (place : List String) : StateDef → List (List String × StateDef)
  | ⟨body, children⟩ => (place, ⟨body, children⟩) :: placesAll place children

def placesAll (place : List String) : List StateDef → List (List String × StateDef)
  | [] => []
  | d :: rest => d.places (place ++ [d.key]) ++ placesAll place rest

end

mutual

@[simp] theorem length_places : ∀ (d : StateDef) (place : List String),
    (d.places place).length = d.size
  | ⟨_, children⟩, place => by simp [places, size, length_placesAll children place]

@[simp] theorem length_placesAll : ∀ (ds : List StateDef) (place : List String),
    (placesAll place ds).length = sizeAll ds
  | [], _ => rfl
  | d :: rest, place => by
    simp [placesAll, sizeAll, length_places d, length_placesAll rest place]

end

theorem size_pos (d : StateDef) : 0 < d.size := by
  obtain ⟨_, _⟩ := d
  simp [size]

variable {s c d : StateDef} {key : String} {front back : List StateDef}

theorem child?_of_split (hs : s.children = front ++ c :: back)
    (hnew : ∀ b ∈ front, b.key ≠ c.key) : s.child? c.key = some c := by
  rw [child?, Keyed.find?, hs]
  refine List.find?_eq_some_iff_append.mpr ⟨by simp, front, back, rfl, ?_⟩
  simpa using hnew

theorem exists_of_child? (h : s.child? key = some c) :
    c.key = key ∧ ∃ front back, s.children = front ++ c :: back ∧ ∀ b ∈ front, b.key ≠ c.key := by
  obtain ⟨hkey, front, back, hs, hnew⟩ := List.find?_eq_some_iff_append.mp h
  have hkey : c.key = key := by simpa using hkey
  exact ⟨hkey, front, back, hs, by simpa [hkey] using hnew⟩

theorem mem_of_child? (h : s.child? key = some c) : c ∈ s.children ∧ c.key = key := by
  obtain ⟨hkey, front, back, hs, -⟩ := exists_of_child? h
  exact ⟨hs ▸ by simp, hkey⟩

theorem child?_eq_none : s.child? key = none ↔ ∀ c ∈ s.children, c.key ≠ key := by
  rw [child?, Keyed.find?, List.find?_eq_none]
  simp

theorem at?_singleton (d : StateDef) (key : String) : d.at? [key] = d.child? key :=
  Option.bind_fun_some _

theorem at?_append (d : StateDef) (xs ys : List String) :
    d.at? (xs ++ ys) = (d.at? xs).bind fun s => s.at? ys := by
  induction xs generalizing d with
  | nil => rfl
  | cons key rest ih =>
    simp only [List.cons_append, at?]
    cases d.child? key with
    | none => rfl
    | some c => exact ih c

/-- Among siblings in ascending order no key occurs twice. -/
theorem Ordered.key_ne (h : s.Ordered) (hs : s.children = front ++ c :: back) :
    ∀ b ∈ front, b.key ≠ c.key := by
  obtain ⟨body, children⟩ := s
  obtain rfl : children = front ++ c :: back := hs
  intro b hb hkey
  have hlt : b.key < c.key := (List.pairwise_append.mp h.1).2.2 b hb c List.mem_cons_self
  rw [hkey] at hlt
  exact absurd hlt (String.lt_irrefl _)

theorem Ordered.child? (h : s.Ordered) (hc : c ∈ s.children) : s.child? c.key = some c := by
  obtain ⟨front, back, hs⟩ := List.append_of_mem hc
  exact child?_of_split hs (h.key_ne hs)

theorem Ordered.of_mem (h : s.Ordered) (hc : c ∈ s.children) : c.Ordered := by
  obtain ⟨body, children⟩ := s
  exact orderedAll_iff.mp h.2 c hc

theorem Ordered.at? (h : d.Ordered) {keys : List String} (hs : d.at? keys = some s) :
    s.Ordered := by
  induction keys generalizing d with
  | nil =>
    cases hs
    exact h
  | cons key rest ih =>
    obtain ⟨c, hc, hrest⟩ := Option.bind_eq_some_iff.mp hs
    exact ih (h.of_mem (mem_of_child? hc).1) hrest

end StateDef

/-! ### Places in a layout -/

namespace StateDef

theorem numbers_append (next : Nat) (front back : List StateDef) :
    numbers next (front ++ back) = numbers next front ++ numbers (next + sizeAll front) back := by
  induction front generalizing next with
  | nil => rfl
  | cons d rest ih =>
    simp only [List.cons_append, numbers, sizeAll, ih, Nat.add_assoc]

theorem slotsAll_append (id : String) (parent : StateId) (depth next : Nat)
    (front back : List StateDef) :
    slotsAll id parent depth next (front ++ back) =
      slotsAll id parent depth next front ++
        slotsAll id parent depth (next + sizeAll front) back := by
  induction front generalizing next with
  | nil => rfl
  | cons d rest ih =>
    simp only [List.cons_append, slotsAll, sizeAll, ih, Nat.add_assoc, List.append_assoc]

end StateDef

namespace Layout

open StateDef (sizeAll numbers slotsAll)

variable {l : Layout} {s c : StateDef} {id : String} {parent : Option StateId}
  {depth n : Nat} {front back : List StateDef} {key : String}

theorem descend?_singleton (l : Layout) (m : StateId) (key : String) :
    l.descend? m [key] = l.child? m key := Option.bind_fun_some _

theorem descend?_append (l : Layout) (m : StateId) (xs ys : List String) :
    l.descend? m (xs ++ ys) = (l.descend? m xs).bind fun k => l.descend? k ys := by
  induction xs generalizing m with
  | nil => rfl
  | cons key rest ih =>
    simp only [List.cons_append, descend?]
    cases l.child? m key with
    | none => rfl
    | some c => exact ih c

/-- The siblings have slots of their own. -/
theorem body_numbers {siblings : List StateDef} {up : StateId} {next : Nat}
    (h : l.HasPart next (slotsAll id up depth next siblings)) :
    (numbers next siblings).map (fun m => (l.slot m).body) = siblings.map StateDef.body := by
  induction siblings generalizing next with
  | nil => rfl
  | cons d rest ih =>
    have hrest := h.right
    rw [StateDef.length_slots] at hrest
    rw [numbers, List.map_cons, List.map_cons, StateDef.slot_of_hasPart h.left, ih hrest]

theorem exists_of_mem_numbers {siblings : List StateDef} {up : StateId} {next : Nat}
    (h : l.HasPart next (slotsAll id up depth next siblings)) {m : StateId}
    (hm : m ∈ numbers next siblings) : ∃ b ∈ siblings, (l.slot m).body = b.body := by
  have hbody := List.mem_map_of_mem (f := fun m => (l.slot m).body) hm
  rw [body_numbers h] at hbody
  obtain ⟨b, hb, heq⟩ := List.mem_map.mp hbody
  exact ⟨b, hb, heq.symm⟩

/-- The parts of the children follow one another behind the slot of their parent. -/
theorem HasPart.children (h : l.HasPart n (s.slots id parent depth n)) :
    l.HasPart (n + 1) (slotsAll id ⟨n⟩ (depth + 1) (n + 1) s.children) := by
  obtain ⟨body, children⟩ := s
  exact h.tail

theorem HasPart.child (h : l.HasPart n (s.slots id parent depth n))
    (hs : s.children = front ++ c :: back) :
    l.HasPart (n + 1 + sizeAll front) (c.slots (id ++ "." ++ c.key) (some ⟨n⟩) (depth + 1)
      (n + 1 + sizeAll front)) := by
  have hchildren := h.children
  rw [hs, StateDef.slotsAll_append] at hchildren
  have hrest := hchildren.right
  rw [StateDef.length_slotsAll] at hrest
  exact hrest.left

/-- **A child has the number of its part.** -/
theorem HasPart.child? (h : l.HasPart n (s.slots id parent depth n))
    (hs : s.children = front ++ c :: back) (hnew : ∀ b ∈ front, b.key ≠ c.key) :
    l.child? ⟨n⟩ c.key = some ⟨n + 1 + sizeAll front⟩ := by
  have hbefore : l.HasPart (n + 1) (slotsAll id ⟨n⟩ (depth + 1) (n + 1) front) := by
    have hchildren := h.children
    rw [hs, StateDef.slotsAll_append] at hchildren
    exact hchildren.left
  rw [Layout.child?, StateDef.slot_of_hasPart h, hs, StateDef.numbers_append]
  refine List.find?_eq_some_iff_append.mpr ⟨?_, _, _, rfl, ?_⟩
  · rw [StateDef.slot_of_hasPart (h.child hs)]
    exact beq_self_eq_true _
  · intro m hm
    obtain ⟨b, hb, hbody⟩ := exists_of_mem_numbers hbefore hm
    rw [hbody, Bool.not_eq_true', beq_eq_false_iff_ne]
    exact hnew b hb

theorem HasPart.child?_eq_none (h : l.HasPart n (s.slots id parent depth n))
    (hnone : s.child? key = none) : l.child? ⟨n⟩ key = none := by
  rw [Layout.child?, StateDef.slot_of_hasPart h]
  refine List.find?_eq_none.mpr fun m hm => ?_
  obtain ⟨b, hb, hbody⟩ := exists_of_mem_numbers h.children hm
  rw [hbody, Bool.not_eq_true, beq_eq_false_iff_ne]
  exact StateDef.child?_eq_none.mp hnone b hb

/-- **What keys lead to in the definition they lead to in the layout.** -/
theorem HasPart.descend? (h : l.HasPart n (s.slots id parent depth n)) {keys : List String}
    (hc : s.at? keys = some c) :
    ∃ m up below, l.descend? ⟨n⟩ keys = some ⟨m⟩ ∧
      l.HasPart m (c.slots (Text.join (id :: keys)) up below m) := by
  induction keys generalizing s n id parent depth with
  | nil =>
    cases hc
    exact ⟨n, parent, depth, rfl, h⟩
  | cons key rest ih =>
    obtain ⟨d, hd, hrest⟩ := Option.bind_eq_some_iff.mp hc
    obtain ⟨rfl, front, back, hs, hnew⟩ := StateDef.exists_of_child? hd
    obtain ⟨m, up, below, hm, hpart⟩ := ih (h.child hs) hrest
    have hjoin : Text.join ((id ++ "." ++ d.key) :: rest) = Text.join (id :: d.key :: rest) := by
      cases rest with
      | nil => rfl
      | cons next rest =>
        rw [Text.join_cons _ (by simp), Text.join_cons id (by simp), Text.join_cons d.key (by simp)]
        simp only [String.append_assoc]
    refine ⟨m, up, below, ?_, hjoin ▸ hpart⟩
    rw [Layout.descend?, h.child? hs hnew]
    exact hm

theorem HasPart.descend?_eq_none (h : l.HasPart n (s.slots id parent depth n))
    {keys : List String} (hnone : s.at? keys = none) : l.descend? ⟨n⟩ keys = none := by
  induction keys generalizing s n id parent depth with
  | nil => cases hnone
  | cons key rest ih =>
    rw [Layout.descend?]
    cases hd : s.child? key with
    | none => rw [h.child?_eq_none hd, Option.bind_none]
    | some d =>
      obtain ⟨rfl, front, back, hs, hnew⟩ := StateDef.exists_of_child? hd
      rw [h.child? hs hnew]
      refine ih (h.child hs) ?_
      rwa [StateDef.at?, hd] at hnone

end Layout

/-! ### Numbers of places -/

namespace StateDef

mutual

/-- The states in pre-order are numbered in that order. -/
theorem reached_of_places : ∀ (d : StateDef) (place : List String), d.Ordered →
    ∀ k place' s, (d.places place)[k]? = some (place', s) →
    ∃ keys, place' = place ++ keys ∧ d.at? keys = some s ∧
      ∀ (l : Layout) id parent depth n, l.HasPart n (d.slots id parent depth n) →
        l.descend? ⟨n⟩ keys = some ⟨n + k⟩
  | ⟨body, children⟩, place, hordered, 0, place', s, h => by
    cases h
    exact ⟨[], (List.append_nil place).symm, rfl, fun _ _ _ _ _ _ => rfl⟩
  | ⟨body, children⟩, place, hordered, k + 1, place', s, h => by
    obtain ⟨front, c, back, keys, j, rfl, rfl, hplace, hat, hreached⟩ :=
      reached_of_placesAll children place (orderedAll_iff.mp hordered.2) k place' s h
    have hnew := hordered.key_ne rfl
    have hchild := child?_of_split (s := ⟨body, front ++ c :: back⟩) rfl hnew
    refine ⟨c.key :: keys, hplace, ?_, ?_⟩
    · rw [at?, hchild]
      exact hat
    · intro l id parent depth n hpart
      have hrest := hreached l _ _ _ _ (hpart.child rfl)
      rw [Layout.descend?, hpart.child? rfl hnew, Option.bind_some, hrest]
      congr 2
      omega

theorem reached_of_placesAll : ∀ (ds : List StateDef) (place : List String),
    (∀ d ∈ ds, d.Ordered) → ∀ k place' s, (placesAll place ds)[k]? = some (place', s) →
    ∃ front c back keys j, ds = front ++ c :: back ∧ k = sizeAll front + j ∧
      place' = place ++ c.key :: keys ∧ c.at? keys = some s ∧
      ∀ (l : Layout) id parent depth n, l.HasPart n (c.slots id parent depth n) →
        l.descend? ⟨n⟩ keys = some ⟨n + j⟩
  | [], place, _, k, place', s, h => by simp [placesAll] at h
  | d :: rest, place, hordered, k, place', s, h => by
    obtain ⟨hd, hrest⟩ := List.forall_mem_cons.mp hordered
    rw [placesAll] at h
    rcases Nat.lt_or_ge k d.size with hlt | hge
    · rw [List.getElem?_append_left (by simpa using hlt)] at h
      obtain ⟨keys, hplace, hat, hreached⟩ := reached_of_places d _ hd k place' s h
      exact ⟨[], d, rest, keys, k, rfl, by simp [sizeAll], by simp [hplace], hat, hreached⟩
    · rw [List.getElem?_append_right (by simpa using hge), length_places] at h
      obtain ⟨front, c, back, keys, j, rfl, hk, hplace, hat, hreached⟩ :=
        reached_of_placesAll rest place hrest (k - d.size) place' s h
      refine ⟨d :: front, c, back, keys, j, rfl, ?_, hplace, hat, hreached⟩
      rw [sizeAll]
      omega

end

end StateDef

namespace Definition

variable {d : Definition} {n m : StateId} {place other : List String} {s : StateDef}

theorem hasPart (d : Definition) : (Layout.of d).HasPart 0 (d.root.slots d.id none 0 0) :=
  ⟨[], [], by simp [Layout.of], rfl⟩

theorem size_layout (d : Definition) : (Layout.of d).slots.size = d.root.size := by
  simp [Layout.of]

/-- The state at a place has a number in the layout. -/
structure Seat (d : Definition) (n : StateId) (place : List String) (s : StateDef) : Prop where
  found : d.root.at? place = some s
  reached : (Layout.of d).descend? (Layout.of d).root place = some n
  part : ∃ parent depth,
    (Layout.of d).HasPart n.index (s.slots (Text.join (d.id :: place)) parent depth n.index)

/-- Every place has a number. -/
theorem exists_seat (h : d.root.at? place = some s) : ∃ n, d.Seat n place s := by
  obtain ⟨m, up, below, hm, hpart⟩ := d.hasPart.descend? h
  exact ⟨⟨m⟩, h, hm, up, below, hpart⟩

theorem descend?_eq_none (h : d.root.at? place = none) :
    (Layout.of d).descend? (Layout.of d).root place = none :=
  d.hasPart.descend?_eq_none h

theorem seat_of_reached (h : (Layout.of d).descend? (Layout.of d).root place = some n) :
    ∃ s, d.Seat n place s := by
  cases hat : d.root.at? place with
  | none => exact nomatch (descend?_eq_none hat).symm.trans h
  | some s =>
    obtain ⟨m, hm⟩ := exists_seat hat
    obtain rfl : m = n := Option.some.inj (hm.reached.symm.trans h)
    exact ⟨s, hm⟩

/-- **The states in pre-order are numbered in that order.** -/
theorem seat_of_places {k : Nat} (h : (d.root.places [])[k]? = some (place, s)) :
    d.Seat ⟨k⟩ place s := by
  obtain ⟨keys, rfl, hat, hreached⟩ := d.root.reached_of_places [] d.ordered k place s h
  have hk : (Layout.of d).descend? (Layout.of d).root place = some ⟨k⟩ := by
    have hdescend := hreached _ _ _ _ _ d.hasPart
    rwa [Nat.zero_add] at hdescend
  obtain ⟨s', hs'⟩ := seat_of_reached hk
  obtain rfl : s' = s := Option.some.inj (hs'.found.symm.trans hat)
  exact hs'

theorem at?_of_mem_places (h : (place, s) ∈ d.root.places []) : d.root.at? place = some s := by
  obtain ⟨k, hk⟩ := List.mem_iff_getElem?.mp h
  exact (seat_of_places hk).found

/-- No two states are at one place. -/
theorem nodup_places (d : Definition) : ((d.root.places []).map Prod.fst).Nodup := by
  refine List.pairwise_iff_getElem.mpr fun i j hi hj hij hsame => ?_
  rw [List.length_map] at hi hj
  simp only [List.getElem_map] at hsame
  have hreached (k : Nat) (hk : k < (d.root.places []).length) :
      (Layout.of d).descend? (Layout.of d).root (d.root.places [])[k].1 = some ⟨k⟩ :=
    (seat_of_places (List.getElem?_eq_getElem hk)).reached
  have hfirst := hreached i hi
  rw [hsame, hreached j hj, Option.some.injEq, StateId.mk.injEq] at hfirst
  omega

/-- Every number belongs to a place. -/
theorem exists_place (hn : n.index < (Layout.of d).slots.size) :
    ∃ place s, (d.root.places [])[n.index]? = some (place, s) ∧ d.Seat n place s := by
  have hlength : n.index < (d.root.places []).length := by
    rwa [StateDef.length_places, ← size_layout]
  have hplace : (d.root.places [])[n.index]? = some (d.root.places [])[n.index] :=
    List.getElem?_eq_getElem hlength
  exact ⟨_, _, hplace, seat_of_places hplace⟩

namespace Seat

variable (h : d.Seat n place s)

include h

theorem slot : ∃ parent depth, (Layout.of d).slot n =
    ⟨s.body, Text.join (d.id :: place), parent, depth,
      StateDef.numbers (n.index + 1) s.children⟩ := by
  obtain ⟨parent, depth, hpart⟩ := h.part
  exact ⟨parent, depth, StateDef.slot_of_hasPart hpart⟩

theorem body : ((Layout.of d).slot n).body = s.body := by
  obtain ⟨parent, depth, hslot⟩ := h.slot
  rw [hslot]

theorem id : ((Layout.of d).slot n).id = Text.join (d.id :: place) := by
  obtain ⟨parent, depth, hslot⟩ := h.slot
  rw [hslot]

theorem children : ((Layout.of d).slot n).children = StateDef.numbers (n.index + 1) s.children := by
  obtain ⟨parent, depth, hslot⟩ := h.slot
  rw [hslot]

theorem body_children : ((Layout.of d).slot n).children.map
    (fun m => ((Layout.of d).slot m).body) = s.children.map StateDef.body := by
  obtain ⟨parent, depth, hpart⟩ := h.part
  rw [h.children]
  exact Layout.body_numbers hpart.children

theorem lt : n.index < (Layout.of d).slots.size := by
  obtain ⟨parent, depth, hpart⟩ := h.part
  have hbound := hpart.bound
  rw [StateDef.length_slots] at hbound
  have hpos := s.size_pos
  omega

theorem isEmpty_children :
    ((Layout.of d).slot n).children.isEmpty = s.children.isEmpty := by
  rw [h.children]
  cases s.children with
  | nil => rfl
  | cons c rest => rfl

/-- Keys lead on from one seat to another. -/
theorem descend?_isSome (keys : List String) :
    ((Layout.of d).descend? n keys).isSome = (s.at? keys).isSome := by
  obtain ⟨parent, depth, hpart⟩ := h.part
  cases hc : s.at? keys with
  | none =>
    have hnone := hpart.descend?_eq_none hc
    rw [hnone]
    rfl
  | some c =>
    obtain ⟨m, up, below, hm, -⟩ := hpart.descend? hc
    rw [hm]
    rfl

/-- **A child is found under its key.** -/
theorem child?_isSome (key : String) :
    ((Layout.of d).child? n key).isSome = (s.child? key).isSome := by
  have hkeys := h.descend?_isSome [key]
  rwa [Layout.descend?_singleton, StateDef.at?_singleton] at hkeys

/-- The parent of a state is at the place above it. -/
theorem parent : (place = [] ∧ ((Layout.of d).slot n).parent = none) ∨
    ∃ p above key up, place = above ++ [key] ∧ ((Layout.of d).slot n).parent = some p ∧
      d.Seat p above up ∧ s ∈ up.children ∧ s.key = key := by
  have hwired := Layout.wired_of d
  rcases List.eq_nil_or_concat place with rfl | ⟨above, key, rfl⟩
  · obtain rfl : (Layout.of d).root = n := Option.some.inj h.reached
    exact .inl ⟨rfl, hwired.root.1⟩
  · rw [List.concat_eq_append]
    right
    have hreached := h.reached
    rw [List.concat_eq_append, Layout.descend?_append] at hreached
    obtain ⟨p, hp, hchild⟩ := Option.bind_eq_some_iff.mp hreached
    obtain ⟨up, hup⟩ := seat_of_reached hp
    rw [Layout.descend?_singleton] at hchild
    have hfound := h.found
    rw [List.concat_eq_append, StateDef.at?_append, hup.found, Option.bind_some,
      StateDef.at?_singleton] at hfound
    obtain ⟨hmem, hkey⟩ := StateDef.mem_of_child? hfound
    have hparent := (hwired.child p n (Layout.mem_children_of_child? hchild)).2.2.1
    exact ⟨p, above, key, up, rfl, hparent, hup, hmem, hkey⟩

/-- A target leads to the place that it names. -/
theorem resolve?_eq_some {target : String} {g : StateId} :
    (Layout.of d).resolve? n target = some g ↔ ∃ other, Names d.id place target other ∧
      (Layout.of d).descend? (Layout.of d).root other = some g := by
  have hmachine : ((Layout.of d).slot (Layout.of d).root).body.key = d.id :=
    congrArg (fun slot => slot.body.key) (StateDef.slot_of_hasPart d.hasPart)
  unfold Layout.resolve?
  split
  case h_1 rest htarget =>
    simp only [names_of_hash htarget, hmachine]
    cases hsplit : Text.split (String.ofList rest) with
    | nil => exact absurd hsplit (Text.split_ne_nil _)
    | cons first keys =>
      simp only [List.cons.injEq]
      constructor
      · intro h
        split at h
        case isTrue hfirst => exact ⟨keys, ⟨hfirst, rfl⟩, h⟩
        case isFalse => cases h
      · rintro ⟨other, ⟨rfl, rfl⟩, h⟩
        rwa [if_pos rfl]
  case h_2 rest htarget =>
    simp only [names_of_dot htarget, exists_eq_left, Layout.descend?_append, h.reached,
      Option.bind_some]
  case h_3 hhash hdot =>
    have htarget : ∀ c ∈ target.toList.head?, c ≠ '#' ∧ c ≠ '.' := by
      intro c hc
      obtain ⟨rest, hrest⟩ := List.head?_eq_some_iff.mp hc
      constructor
      · rintro rfl
        exact hhash rest hrest
      · rintro rfl
        exact hdot rest hrest
    simp only [names_of_plain htarget, exists_eq_left, Layout.descend?_append]
    rcases h.parent with ⟨rfl, hnone⟩ | ⟨p, above, key, up, rfl, hparent, hup, -⟩
    · rw [hnone]
      rfl
    · rw [hparent, List.dropLast_concat, hup.reached]
      rfl

omit h in
/-- A number belongs to one place. -/
theorem unique {s' : StateDef} (h : d.Seat n place s) (h' : d.Seat n other s') :
    place = other ∧ s = s' := by
  have hplace : place = other := by
    induction hlength : place.length generalizing n place other s s' with
    | zero =>
      obtain rfl := List.length_eq_zero_iff.mp hlength
      rcases h'.parent with ⟨rfl, -⟩ | ⟨p, above, key, up, rfl, hparent, -⟩
      · rfl
      · rcases h.parent with ⟨-, hnone⟩ | ⟨_, above', _, _, hplace, -⟩
        · exact nomatch hnone.symm.trans hparent
        · simp at hplace
    | succ k ih =>
      rcases h.parent with ⟨rfl, -⟩ | ⟨p, above, key, up, rfl, hparent, hup, -, hkey⟩
      · cases hlength
      rcases h'.parent with ⟨-, hnone⟩ | ⟨p', above', key', up', rfl, hparent', hup', -, hkey'⟩
      · exact nomatch hnone.symm.trans hparent
      obtain rfl := Option.some.inj (hparent.symm.trans hparent')
      have habove := ih hup hup' (by simpa using hlength)
      have hbody : s.body = s'.body := h.body.symm.trans h'.body
      rw [habove, ← hkey, ← hkey', StateDef.key, StateDef.key, hbody]
  refine ⟨hplace, ?_⟩
  rw [hplace] at h
  exact Option.some.inj (h.found.symm.trans h'.found)

theorem places_eq : (d.root.places [])[n.index]? = some (place, s) := by
  obtain ⟨other, s', hplace, h'⟩ := exists_place h.lt
  obtain ⟨rfl, rfl⟩ := h.unique h'
  exact hplace

end Seat

end Definition

end Statechart
