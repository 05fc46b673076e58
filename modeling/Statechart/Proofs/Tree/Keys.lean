import Statechart.Proofs.Tree.Preorder

/-!
# The hierarchy in the ids

The id of a state is joined from the keys on the way down to it (`StateTree.Named.id_eq`). No key
has a dot in it, so the keys can be told apart in the id, and with them the states above: they are
the ones whose ids the id goes on from after a dot, and there are as many of them as there are dots
(`StateTree.hierarchy_of_build`).
-/

namespace Statechart

/-! ### Paths that go on from others -/

namespace Text

variable {xs ys keys : List String}

/-- A path goes on from another one if its keys do. The dot keeps a key apart from those it is the
beginning of. -/
theorem isPrefix_iff (hx : xs ≠ []) (hy : ys ≠ []) (hdx : Dotless xs) (hdy : Dotless ys) :
    xs <+: ys ↔ join ys = join xs ∨ (join xs ++ ".").toList <+: (join ys).toList := by
  constructor
  · rintro ⟨rest, rfl⟩
    by_cases hrest : rest = []
    · exact .inl (by rw [hrest, List.append_nil])
    · refine .inr ⟨(join rest).toList, ?_⟩
      rw [join_append hx hrest, ← String.toList_append]
  · rintro (hsame | ⟨rest, hrest⟩)
    · have hkeys : ys = xs := by rw [← split_join hx hdx, ← hsame, split_join hy hdy]
      exact hkeys ▸ List.prefix_rfl
    · have hjoin : join ys = join xs ++ "." ++ String.ofList rest := by
        rw [← String.toList_inj, String.toList_append, String.toList_ofList, hrest]
      rw [(join_eq_append_iff hx hy hdx hdy).mp hjoin]
      exact List.prefix_append _ _

/-- There is one dot between any two keys. -/
theorem count_join (hne : keys ≠ []) (h : Dotless keys) :
    (join keys).toList.count '.' + 1 = keys.length := by
  induction keys with
  | nil => exact absurd rfl hne
  | cons key rest ih =>
    obtain ⟨hkey, hrest⟩ := List.forall_mem_cons.mp h
    have hnone : key.toList.count '.' = 0 := List.count_eq_zero_of_not_mem hkey
    by_cases hnil : rest = []
    · rw [hnil, join, hnone]
      rfl
    · have hdot : ".".toList.count '.' = 1 := by decide
      rw [join_cons key hnil, String.toList_append, String.toList_append, List.count_append,
        List.count_append, hnone, hdot, List.length_cons, ← ih hnil hrest]
      omega

/-- The paths that the first key, the first two keys and so on are joined to. -/
def trail (keys : List String) : List String :=
  (List.range keys.length).map fun n => join (keys.take (n + 1))

theorem mem_trail {path : String} :
    path ∈ trail keys ↔ ∃ front, front ≠ [] ∧ front <+: keys ∧ join front = path := by
  simp only [trail, List.mem_map, List.mem_range]
  constructor
  · rintro ⟨n, hn, rfl⟩
    refine ⟨keys.take (n + 1), fun hnil => ?_, List.take_prefix _ _, rfl⟩
    have hlength := congrArg List.length hnil
    simp only [List.length_take, List.length_nil] at hlength
    omega
  · rintro ⟨front, hne, ⟨rest, rfl⟩, rfl⟩
    have hpos := List.length_pos_iff.mpr hne
    refine ⟨front.length - 1, ?_, ?_⟩
    · rw [List.length_append]
      omega
    · rw [Nat.sub_add_cancel hpos, List.take_left]

theorem trail_concat (keys : List String) (key : String) :
    trail (keys ++ [key]) = trail keys ++ [join (keys ++ [key])] := by
  have hfront : ∀ n ∈ List.range keys.length,
      join ((keys ++ [key]).take (n + 1)) = join (keys.take (n + 1)) := fun n hn => by
    rw [List.take_append_of_le_length (List.mem_range.mp hn)]
  have hall : (keys ++ [key]).take (keys.length + 1) = keys ++ [key] :=
    List.take_of_length_le (by simp)
  rw [trail, List.length_append, List.length_singleton, List.range_succ, List.map_append,
    List.map_congr_left hfront, List.map_singleton, hall, trail]

theorem trail_cons (key : String) (keys : List String) :
    trail (key :: keys) = key :: (trail keys).map fun path => key ++ "." ++ path := by
  have hrest : ∀ n ∈ List.range keys.length,
      join ((key :: keys).take (n + 1 + 1)) = key ++ "." ++ join (keys.take (n + 1)) := by
    intro n hn
    refine join_cons key fun hnil => ?_
    have hlength := congrArg List.length hnil
    rw [List.length_take, List.length_nil] at hlength
    have := List.mem_range.mp hn
    omega
  rw [trail, List.length_cons, List.range_succ_eq_map, List.map_cons, List.map_map, trail,
    List.map_map]
  exact congrArg (key :: ·) (List.map_congr_left hrest)

end Text

/-! ### Keys on the way down -/

namespace StateTree

variable {t : StateTree} {a b s p : StateId}

/-- The keys of the states on the way from the root down to `s`. -/
def keys (t : StateTree) (s : StateId) : List String := (t.path s).map fun a => (t.node a).key

/-- Ids are put together from valid keys, with a dot before each but the first. -/
structure Named (t : StateTree) : Prop where
  key : ∀ s : StateId, s.index < t.size → IsValidKey (t.node s).key
  root : (t.node t.root).id = (t.node t.root).key
  child : ∀ s p, (t.node s).parent = some p →
    (t.node s).id = (t.node p).id ++ "." ++ (t.node s).key

theorem keys_of_parent_none (h : (t.node s).parent = none) : t.keys s = [(t.node s).key] := by
  rw [keys, path, ancestors_of_parent_none h]
  rfl

theorem WellFormed.keys_cons (ht : t.WellFormed) (h : (t.node s).parent = some p) :
    t.keys s = t.keys p ++ [(t.node s).key] := by
  rw [keys, ht.path_cons h, List.map_append]
  rfl

theorem WellFormed.keys_ne_nil (ht : t.WellFormed) (s : StateId) : t.keys s ≠ [] := by
  cases hp : (t.node s).parent with
  | none => simp [keys_of_parent_none hp]
  | some p => simp [ht.keys_cons hp]

/-- The keys on the way to a state above are the first of those on the way to the state. -/
theorem WellFormed.keys_isPrefix (ht : t.WellFormed) (h : b ∈ t.ancestors a) :
    t.keys b <+: t.keys a := by
  rw [keys, keys, ← ht.path_append h, List.map_append]
  exact List.prefix_append _ _

theorem WellFormed.length_keys (ht : t.WellFormed) (hs : s.index < t.size) :
    (t.keys s).length = (t.node s).depth + 1 := by
  rw [keys, List.length_map, path, List.length_reverse, ht.length_ancestors hs]

theorem Named.dotless (hn : t.Named) (ht : t.WellFormed) (hs : s.index < t.size) :
    Text.Dotless (t.keys s) := by
  intro key hkey
  obtain ⟨a, ha, rfl⟩ := List.mem_map.mp hkey
  exact (hn.key a (ht.lt_size_of_mem_ancestors hs (mem_path.mp ha))).2.1

/-- **An id is joined from the keys on the way down to the state.** -/
theorem Named.id_eq (hn : t.Named) (ht : t.WellFormed) (hs : s.index < t.size) :
    (t.node s).id = Text.join (t.keys s) := by
  induction s using ht.upward with
  | top s hp =>
    rw [keys_of_parent_none hp, ht.eq_root hs hp]
    exact hn.root
  | below s p hp ih =>
    have hlt := ht.parent_lt s p hp
    rw [ht.keys_cons hp, Text.join_append (ht.keys_ne_nil p) (by simp), hn.child s p hp,
      ih (by omega)]
    rfl

/-- The ids on the way down to a state are what the keys are joined to one after another. -/
theorem Named.ids_path (hn : t.Named) (ht : t.WellFormed) (hs : s.index < t.size) :
    ((t.path s).map fun a => (t.node a).id) = Text.trail (t.keys s) := by
  induction s using ht.upward with
  | top s hp =>
    have hid := hn.id_eq ht hs
    rw [keys_of_parent_none hp] at hid ⊢
    rw [path, ancestors_of_parent_none hp]
    exact congrArg (fun id => [id]) hid
  | below s p hp ih =>
    have hlt := ht.parent_lt s p hp
    have hid := hn.id_eq ht hs
    rw [ht.path_cons hp, List.map_append, ih (by omega)]
    rw [ht.keys_cons hp] at hid ⊢
    rw [Text.trail_concat, ← hid]
    rfl

/-- No two states have the same keys on the way down to them. -/
theorem Named.keys_inj (hn : t.Named) (ht : t.WellFormed) (hd : t.Distinct) (ha : a.index < t.size)
    (hb : b.index < t.size) (h : t.keys a = t.keys b) : a = b :=
  hd a b ha hb (by rw [hn.id_eq ht ha, hn.id_eq ht hb, h])

/-- **The states above are those whose keys come first.** -/
theorem Named.mem_ancestors_iff (hn : t.Named) (ht : t.WellFormed) (hd : t.Distinct)
    (ha : a.index < t.size) (hb : b.index < t.size) :
    b ∈ t.ancestors a ↔ t.keys b <+: t.keys a := by
  refine ⟨ht.keys_isPrefix, ?_⟩
  induction a using ht.upward with
  | top a hp =>
    intro hpre
    rw [keys_of_parent_none hp] at hpre
    have hsame := hpre.eq_of_length_le (List.length_pos_iff.mpr (ht.keys_ne_nil b))
    rw [← keys_of_parent_none hp] at hsame
    rw [hn.keys_inj ht hd hb ha hsame]
    exact ht.self_mem_ancestors a
  | below a p hp ih =>
    intro hpre
    have hlt := ht.parent_lt a p hp
    -- Either all keys are the same, or those of `b` come first on the way to the parent.
    rw [ht.keys_cons hp, List.prefix_concat_iff, ← ht.keys_cons hp] at hpre
    rcases hpre with hsame | hpre
    · rw [hn.keys_inj ht hd hb ha hsame]
      exact ht.self_mem_ancestors a
    · exact (ht.mem_ancestors_cons hp).mpr (.inr (ih (by omega) hpre))

end StateTree

/-! ### Trees that were built -/

namespace Definition

variable {d : Definition} {n : StateId} {place : List String} {s : StateDef}

theorem Seat.node_key (h : d.Seat n place s) : ((Layout.of d).toTree.node n).key = s.key := by
  rw [Layout.node_toTree h.lt]
  exact congrArg StateBody.key h.body

theorem ValidKeys.named (hkeys : d.ValidKeys) : (Layout.of d).toTree.Named := by
  have hseat (n : StateId) (hn : n.index < (Layout.of d).toTree.size) :
      ∃ place s, d.Seat n place s := by
    obtain ⟨place, s, -, h⟩ := exists_place (by simpa using hn)
    exact ⟨place, s, h⟩
  constructor
  case key =>
    intro n hn
    obtain ⟨place, s, h⟩ := hseat n hn
    rw [h.node_key]
    rcases h.parent with ⟨rfl, -⟩ | ⟨p, above, key, up, rfl, -, hup, hmem, -⟩
    · cases h.found
      exact hkeys.machine
    · exact hkeys.state above up hup.found s hmem
  case root =>
    have hroot : d.root.at? [] = some d.root := rfl
    obtain ⟨n, h⟩ := exists_seat hroot
    obtain rfl : (Layout.of d).toTree.root = n := Option.some.inj h.reached
    rw [h.node_id, h.node_key]
    rfl
  case child =>
    intro n p hp
    rw [Layout.parent_toTree] at hp
    obtain ⟨place, s, h⟩ := hseat n (by simpa using Layout.lt_of_parent hp)
    exact h.node_id_eq (by rwa [Layout.parent_toTree])

end Definition

theorem StateTree.named_of_build {d : Definition} {catalog : Catalog} {t : StateTree}
    (h : StateTree.build d catalog = .ok t) : t.Named ∧ t.Distinct := by
  obtain ⟨hnil, rfl⟩ := StateTree.defects_of_build h
  have hfits := Definition.wellFormed_of_defects hnil
  have hkeys : d.ValidKeys := ⟨hfits.machine, fun place s hs => (hfits.state place s hs).keys⟩
  exact ⟨hkeys.named, hkeys.distinct⟩

/-- **The hierarchy can be read off the ids**: one state is another or lies below it exactly if its
id is the id of the other or goes on from it after a dot, and there is a dot for each state above.
-/
theorem StateTree.hierarchy_of_build {d : Definition} {catalog : Catalog} {t : StateTree}
    (h : StateTree.build d catalog = .ok t) {a b : StateId} (ha : a.index < t.size)
    (hb : b.index < t.size) :
    (t.isDescendant a b = true ↔ (t.node a).id = (t.node b).id ∨
      ((t.node b).id ++ ".").toList <+: (t.node a).id.toList) ∧
    (t.node a).id.toList.count '.' = (t.node a).depth := by
  have ht := StateTree.wellFormed_of_build h
  obtain ⟨hn, hd⟩ := StateTree.named_of_build h
  have hida := hn.id_eq ht ha
  have hidb := hn.id_eq ht hb
  constructor
  · rw [isDescendant_iff, hn.mem_ancestors_iff ht hd ha hb, hida, hidb]
    exact Text.isPrefix_iff (ht.keys_ne_nil b) (ht.keys_ne_nil a) (hn.dotless ht hb)
      (hn.dotless ht ha)
  · have hdots := Text.count_join (ht.keys_ne_nil a) (hn.dotless ht ha)
    rw [hida]
    rw [ht.length_keys ha] at hdots
    omega

/-- A shelf has a box in which there is a cup, and next to the box its key. -/
def shelf : Definition := .ofRoot <| Draft.toDef <|
  (((Draft.new "shelf").initial "box").state
    (((Draft.new "box").initial "cup").state (Draft.new "cup"))).state (Draft.new "boxkey")

def shelfTree : StateTree := (Layout.of shelf).toTree

theorem build_shelf : StateTree.build shelf .everything = .ok shelfTree := rfl

/-- The cup is in the box and the key is not, though its id begins with that of the box. -/
theorem shelf_hierarchy :
    (shelfTree.isDescendant ⟨2⟩ ⟨1⟩ = true ∧ (shelfTree.node ⟨2⟩).depth = 2) ∧
    (shelfTree.isDescendant ⟨3⟩ ⟨1⟩ = false ∧
      (shelfTree.node ⟨1⟩).id.toList <+: (shelfTree.node ⟨3⟩).id.toList) := by
  have hcup :=
    StateTree.hierarchy_of_build build_shelf (a := ⟨2⟩) (b := ⟨1⟩) (by decide) (by decide)
  have hkey :=
    StateTree.hierarchy_of_build build_shelf (a := ⟨3⟩) (b := ⟨1⟩) (by decide) (by decide)
  refine ⟨⟨hcup.1.mpr (.inr (by decide +kernel)), ?_⟩, ?_, by decide +kernel⟩
  · rw [← hcup.2]
    decide +kernel
  · exact Bool.eq_false_iff.mpr fun hbelow => absurd (hkey.1.mp hbelow) (by decide +kernel)

end Statechart
