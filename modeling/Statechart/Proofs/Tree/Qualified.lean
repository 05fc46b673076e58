import Statechart.Tree.Hierarchy
import Statechart.Proofs.Tree.Image

/-!
# Qualified ids

The id of a state is the path of keys from the machine down to it. Where no key has a dot in it the
ids of a tree are pairwise different (`Definition.ValidKeys.id_inj`), and a target is the id of a
state in another form: it leads to the state whose id it can be completed to, and nowhere if there
is none (`Definition.resolve?_eq_find?`).
-/

namespace Statechart

namespace StateTree

variable {t : StateTree}

/-- The id that a target declared in `s` stands for: it is written after a `#`, or goes on from the
id of `s` or from that of the state above. -/
def qualify (t : StateTree) (s : StateId) (target : String) : String :=
  match target.toList with
  | '#' :: rest => String.ofList rest
  | '.' :: _ => (t.node s).id ++ target
  | _ => (t.node (t.parentOrSelf s)).id ++ "." ++ target

/-- No two states have the same id. -/
def Distinct (t : StateTree) : Prop :=
  ∀ m n : StateId, m.index < t.size → n.index < t.size → (t.node m).id = (t.node n).id → m = n

theorem node_eq_getElem {k : Nat} (h : k < t.nodes.toList.length) :
    t.node ⟨k⟩ = t.nodes.toList[k] := by
  have hk : k < t.nodes.size := by simpa using h
  simp [node, node?, hk]

theorem of_find? {id : String} {n : StateId} (h : t.find? id = some n) :
    n.index < t.size ∧ (t.node n).id = id := by
  obtain ⟨k, hk, rfl⟩ := Option.map_eq_some_iff.mp h
  obtain ⟨hlt, hid, -⟩ := List.findIdx?_eq_some_iff_getElem.mp hk
  exact ⟨by simpa [size] using hlt, by simpa [node_eq_getElem hlt] using hid⟩

theorem find?_isSome {n : StateId} (h : n.index < t.size) : ∃ m, t.find? (t.node n).id = some m := by
  have hlt : n.index < t.nodes.toList.length := by simpa [size] using h
  cases hfind : t.nodes.toList.findIdx? fun m => m.id == (t.node n).id with
  | none =>
    have hnone := List.findIdx?_eq_none_iff.mp hfind _ (List.getElem_mem hlt)
    rw [← node_eq_getElem hlt] at hnone
    simp at hnone
  | some k => exact ⟨⟨k⟩, by rw [find?, hfind]; rfl⟩

/-- A state is found under its id. -/
theorem Distinct.find?_eq_some (h : t.Distinct) {id : String} {n : StateId} :
    t.find? id = some n ↔ n.index < t.size ∧ (t.node n).id = id := by
  refine ⟨of_find?, ?_⟩
  rintro ⟨hn, rfl⟩
  obtain ⟨m, hm⟩ := find?_isSome hn
  obtain ⟨hlt, hid⟩ := of_find? hm
  rw [hm, h m n hlt hn hid]

end StateTree

namespace Definition

variable {d : Definition} {n m : StateId} {place other : List String} {s s' : StateDef}

/-- The id of the machine and the keys of all states are valid. -/
structure ValidKeys (d : Definition) : Prop where
  machine : IsValidKey d.id
  state : ∀ place s, d.root.at? place = some s → ∀ c ∈ s.children, IsValidKey c.key

/-- Keys on the way down from a state have no dots if no keys below it have. -/
theorem dotless_of_at? {r : StateDef} (hat : r.at? place = some s)
    (h : ∀ keys s, r.at? keys = some s → ∀ c ∈ s.children, IsValidKey c.key) :
    Text.Dotless place := by
  induction place generalizing r with
  | nil => simp [Text.Dotless]
  | cons key rest ih =>
    obtain ⟨c, hc, hrest⟩ := Option.bind_eq_some_iff.mp hat
    obtain ⟨hmem, rfl⟩ := StateDef.mem_of_child? hc
    refine List.forall_mem_cons.mpr ⟨(h [] r rfl c hmem).2.1, ih hrest fun keys s hs => ?_⟩
    refine h (c.key :: keys) s ?_
    rw [StateDef.at?, hc]
    exact hs

theorem ValidKeys.dotless (h : d.ValidKeys) (hat : d.root.at? place = some s) :
    Text.Dotless (d.id :: place) :=
  List.forall_mem_cons.mpr ⟨h.machine.2.1, dotless_of_at? hat h.state⟩

namespace Seat

variable (h : d.Seat n place s)

include h

theorem node_id : ((Layout.of d).toTree.node n).id = d.idOf place := by
  rw [Layout.node_toTree h.lt]
  exact h.id

/-- The state above has the id of the place above. -/
theorem node_parentOrSelf_id :
    ((Layout.of d).toTree.node ((Layout.of d).toTree.parentOrSelf n)).id =
      d.idOf place.dropLast := by
  rw [StateTree.parentOrSelf, Layout.parent_toTree]
  rcases h.parent with ⟨rfl, hnone⟩ | ⟨p, above, key, up, rfl, hparent, hup, -⟩
  · rw [hnone]
    exact h.node_id
  · rw [hparent, List.dropLast_concat]
    exact hup.node_id

/-- **A target names the place whose id it stands for.** -/
theorem names_iff (hkeys : d.ValidKeys) (h' : d.Seat m other s') {target : String} :
    Names d.id place target other ↔
      ((Layout.of d).toTree.node m).id = (Layout.of d).toTree.qualify n target := by
  have hplace := hkeys.dotless h.found
  have hother := hkeys.dotless h'.found
  rw [h'.node_id, idOf, StateTree.qualify]
  split
  case h_1 rest htarget =>
    rw [names_of_hash htarget, Text.split_eq_iff (by simp) hother]
  case h_2 rest htarget =>
    have hdot : target = "." ++ String.ofList rest := by
      rw [← String.toList_inj, toList_dot, String.toList_ofList, htarget]
    rw [names_of_dot htarget, h.node_id, idOf, hdot, ← String.append_assoc,
      Text.join_eq_append_iff (by simp) (by simp) hplace hother, List.cons_append,
      List.cons.injEq, and_iff_right rfl]
  case h_3 hhash hdot =>
    have htarget : ∀ c ∈ target.toList.head?, c ≠ '#' ∧ c ≠ '.' := by
      intro c hc
      obtain ⟨rest, hrest⟩ := List.head?_eq_some_iff.mp hc
      constructor
      · rintro rfl
        exact hhash rest hrest
      · rintro rfl
        exact hdot rest hrest
    have habove : Text.Dotless (d.id :: place.dropLast) := by
      intro key hkey
      rcases List.mem_cons.mp hkey with rfl | hkey
      · exact hplace _ List.mem_cons_self
      · exact hplace key (List.mem_cons_of_mem _ ((List.dropLast_subset place) hkey))
    rw [names_of_plain htarget, h.node_parentOrSelf_id, idOf,
      Text.join_eq_append_iff (by simp) (by simp) habove hother, List.cons_append,
      List.cons.injEq, and_iff_right rfl]

end Seat

/-- **Different states have different ids.** -/
theorem ValidKeys.distinct (hkeys : d.ValidKeys) : (Layout.of d).toTree.Distinct := by
  intro m n hm hn hid
  obtain ⟨place, s, -, h⟩ := exists_place (by simpa using hm)
  obtain ⟨other, s', -, h'⟩ := exists_place (by simpa using hn)
  have hsame : d.id :: place = d.id :: other := by
    rw [← Text.split_join (by simp) (hkeys.dotless h.found),
      ← Text.split_join (by simp) (hkeys.dotless h'.found), ← idOf, ← idOf, ← h.node_id,
      ← h'.node_id, hid]
  obtain rfl := (List.cons.inj hsame).2
  exact Option.some.inj (h.reached.symm.trans h'.reached)

/-- **A target leads to the state whose id it stands for.** Ids are pairwise different, so there is
at most one such state, and every state is reached from every other by its id after a `#`. -/
theorem resolve?_eq_find? (hkeys : d.ValidKeys) (hn : n.index < (Layout.of d).toTree.size)
    (target : String) :
    let t := (Layout.of d).toTree
    (Layout.of d).resolve? n target = t.find? (t.qualify n target) ∧
    ((Layout.of d).resolve? n target = none ↔
      ∀ m : StateId, m.index < t.size → (t.node m).id ≠ t.qualify n target) ∧
    t.Distinct ∧
    ∀ m : StateId, m.index < t.size →
      (Layout.of d).resolve? n ("#" ++ (t.node m).id) = some m := by
  intro t
  obtain ⟨place, s, -, h⟩ := exists_place (by simpa using hn)
  have hiff (target : String) (m : StateId) : (Layout.of d).resolve? n target = some m ↔
      m.index < t.size ∧ (t.node m).id = t.qualify n target := by
    rw [h.resolve?_eq_some]
    constructor
    · rintro ⟨other, hnames, hreached⟩
      obtain ⟨s', h'⟩ := seat_of_reached hreached
      exact ⟨by simpa [t] using h'.lt, (h.names_iff hkeys h').mp hnames⟩
    · rintro ⟨hm, hid⟩
      obtain ⟨other, s', -, h'⟩ := exists_place (by simpa [t] using hm)
      exact ⟨other, (h.names_iff hkeys h').mpr hid, h'.reached⟩
  refine ⟨?_, ?_, hkeys.distinct, ?_⟩
  · exact Option.ext fun m => by rw [hiff, hkeys.distinct.find?_eq_some]
  · rw [Option.eq_none_iff_forall_ne_some]
    simp only [ne_eq, hiff, not_and]
  · intro m hm
    refine (hiff _ m).mpr ⟨hm, ?_⟩
    rw [StateTree.qualify, toList_hash]
    exact String.ofList_toList.symm

end Definition

theorem validKeys_lock : lock.ValidKeys := by
  have h := Definition.wellFormed_of_defects (StateTree.defects_of_build build_lock).1
  exact ⟨h.machine, fun place s hs => (h.state place s hs).keys⟩

/-- From the shut state its sibling is reached by the key, and the machine by its id. -/
theorem lock_resolves :
    lockTree.qualify ⟨2⟩ "open" = "lock.open" ∧
    (Layout.of lock).resolve? ⟨2⟩ "open" = lockTree.find? "lock.open" ∧
    (Layout.of lock).resolve? ⟨2⟩ "#lock" = some ⟨0⟩ := by
  have h := Definition.resolve?_eq_find? (n := ⟨2⟩) validKeys_lock (by decide) "open"
  exact ⟨rfl, h.1, h.2.2.2 ⟨0⟩ (by decide)⟩

end Statechart
