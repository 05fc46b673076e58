import Mathlib.Data.List.Forall2
import Statechart.Definition.Builder
import Statechart.Proofs.Tree.Acceptance

/-!
# The tree as an image of the definition

The nodes of a tree that was built are the states of its definition in pre-order, and each node has
all that its state declares (`Image`): nothing was dropped, nothing comes in another order but the
delays, which come in the order of their lengths, and all numbers stand for the names that were
declared (`StateTree.image_of_build`). Actions and services are listed once each, and there are none
that the definition does not refer to.
-/

namespace Statechart

/-! ### Names and their numbers -/

theorem nodup_eraseDups (names : List String) : names.eraseDups.Nodup := by
  induction hlength : names.length using Nat.strongRecOn generalizing names with
  | ind k ih =>
    cases names with
    | nil => simp
    | cons name rest =>
      have hle := List.length_filter_le (fun b => !b == name) rest
      rw [List.length_cons] at hlength
      rw [List.eraseDups_cons]
      refine List.nodup_cons.mpr ⟨?_, ih _ (by omega) _ rfl⟩
      simp

namespace Layout

variable {l : Layout} {name : String} {names : List String}

theorem mem_actions : name ∈ l.actions ↔ ∃ slot ∈ l.slots.toList, name ∈ slot.body.actionNames := by
  rw [actions, List.mem_eraseDups, List.mem_flatMap]

theorem mem_services :
    name ∈ l.services ↔ ∃ slot ∈ l.slots.toList, name ∈ slot.body.serviceNames := by
  rw [services, List.mem_eraseDups, List.mem_flatMap]

theorem actionName_idxOf (h : name ∈ l.actions) :
    l.toTree.actionName ⟨l.actions.idxOf name⟩ = name := by
  rw [StateTree.actionName]
  exact congrArg (Option.getD · "") (List.getElem?_idxOf h)

theorem serviceName_idxOf (h : name ∈ l.services) :
    l.toTree.serviceName ⟨l.services.idxOf name⟩ = name := by
  rw [StateTree.serviceName]
  exact congrArg (Option.getD · "") (List.getElem?_idxOf h)

/-- **The numbers of actions stand for their names.** -/
theorem map_actionName (h : ∀ name ∈ names, name ∈ l.actions) :
    (actionIds l.actions names).map l.toTree.actionName = names := by
  rw [actionIds, List.map_map]
  exact (List.map_congr_left fun name hname => actionName_idxOf (h name hname)).trans
    (List.map_id' names)

end Layout

/-! ### Delays in order -/

theorem Delay.perm_insert (a : Delay) (delays : List Delay) :
    (a.insert delays).Perm (a :: delays) := by
  induction delays with
  | nil => exact .refl _
  | cons b rest ih =>
    rw [Delay.insert]
    split
    · exact .refl _
    · exact (ih.cons b).trans (.swap a b rest)

/-- Delays are put in order, and nothing else is done to them. -/
theorem Delay.perm_sort (delays : List Delay) : (Delay.sort delays).Perm delays := by
  induction delays with
  | nil => exact .refl _
  | cons a rest ih => exact (Delay.perm_insert a _).trans (ih.cons a)

/-- Where nothing is dropped the results belong to the items one by one. -/
theorem forall₂_filterMap {α β : Type} {f : α → Option β} {R : β → α → Prop} {as : List α}
    (h : ∀ a ∈ as, ∃ b, f a = some b ∧ R b a) : List.Forall₂ R (as.filterMap f) as := by
  induction as with
  | nil => exact .nil
  | cons a rest ih =>
    obtain ⟨⟨b, hb, hR⟩, hrest⟩ := List.forall_mem_cons.mp h
    rw [List.filterMap_cons_some hb]
    exact .cons hR (ih hrest)

/-! ### Images -/

/-- The transition is what was declared for the state `n`, which is at `place`. -/
structure Renders (d : Definition) (t : StateTree) (n : StateId) (place : List String)
    (tr : Transition) (decl : TransitionDef) : Prop where
  source : tr.source = n
  actions : tr.actions.map t.actionName = decl.actions.items
  description : tr.description = decl.description
  targetless : tr.target = none ↔ decl.target = none
  /-- the target is the state at the place that was named -/
  target : ∀ g, tr.target = some g → ∃ target other s, decl.target = some target ∧
    Names d.id place target other ∧ (d.root.places [])[g.index]? = some (other, s)

/-- The node `n` has all that the state at `place` declares, and nothing else. -/
structure Image (d : Definition) (t : StateTree) (n : StateId) (place : List String)
    (s : StateDef) : Prop where
  key : (t.node n).key = s.key
  id : (t.node n).id = d.idOf place
  children : ((t.node n).children.map fun c => (t.node c).key) = s.children.map StateDef.key
  initial : ((t.node n).initial.map fun c => (t.node c).key) = s.body.initial
  description : (t.node n).description = s.body.description
  entry : (t.node n).entry.map t.actionName = s.body.entry.items
  exit : (t.node n).exit.map t.actionName = s.body.exit.items
  on : List.Forall₂ (fun x y => x.1 = y.1 ∧ List.Forall₂ (Renders d t n place) x.2 y.2.items)
    (t.node n).on.entries s.body.on.entries
  /-- there is one delay for each key, though in another order -/
  after : ∃ delays : List Delay, delays.Perm (t.node n).after ∧
    List.Forall₂ (fun delay y => Denotes y.1 delay.millis ∧
      delay.event = "after(" ++ toString delay.millis ++ ")#" ++ d.idOf place ∧
      Renders d t n place delay.transition y.2) delays s.body.after.entries
  ascending : (t.node n).after.Pairwise fun a b => a.millis < b.millis
  invoke : ((t.node n).invoke.map fun v => (v.id, t.serviceName v.service)) =
    s.body.invoke.items.map fun v => (v.id.getD v.service, v.service)

namespace Definition

variable {d : Definition} {catalog : Catalog} {n : StateId} {place : List String} {s : StateDef}

/-- The states of the layout are those at the places. -/
theorem exists_slot_iff {P : StateBody → Prop} :
    (∃ slot ∈ (Layout.of d).slots.toList, P slot.body) ↔ ∃ x ∈ d.root.places [], P x.2.body := by
  constructor
  · rintro ⟨slot, hslot, hP⟩
    obtain ⟨n, hn, rfl⟩ := Layout.exists_of_mem_slots hslot
    obtain ⟨place, s, hplace, h⟩ := exists_place hn
    exact ⟨_, List.mem_of_getElem? hplace, h.body ▸ hP⟩
  · rintro ⟨⟨place, s⟩, hx, hP⟩
    obtain ⟨k, hk⟩ := List.getElem?_of_mem hx
    have h := seat_of_places hk
    exact ⟨_, Layout.mem_slots h.lt, h.body.symm ▸ hP⟩

namespace Seat

variable (h : d.Seat n place s)

include h

theorem mem_actions {name : String} (hname : name ∈ s.body.actionNames) :
    name ∈ (Layout.of d).actions :=
  Layout.mem_actions.mpr ⟨_, Layout.mem_slots h.lt, h.body.symm ▸ hname⟩

theorem mem_services {name : String} (hname : name ∈ s.body.serviceNames) :
    name ∈ (Layout.of d).services :=
  Layout.mem_services.mpr ⟨_, Layout.mem_slots h.lt, h.body.symm ▸ hname⟩

/-- **A transition becomes what was declared.** -/
theorem renders (hfits : d.Fits catalog place s) {decl : TransitionDef}
    (hdecl : decl ∈ s.body.transitions)
    (hactions : ∀ name ∈ decl.actions.items, name ∈ s.body.actionNames) :
    Renders d (Layout.of d).toTree n place
      ((Layout.of d).transition (Layout.of d).actions n decl) decl := by
  constructor
  case source => rfl
  case actions => exact Layout.map_actionName fun name hname => h.mem_actions (hactions name hname)
  case description => rfl
  case targetless =>
    rw [Layout.transition]
    cases htarget : decl.target with
    | none => simp
    | some target =>
      have hresolves := h.resolves_iff.mpr (hfits.targets decl hdecl target htarget)
      simpa using Option.isSome_iff_ne_none.mp hresolves
  case target =>
    intro g hg
    obtain ⟨target, htarget, hresolve⟩ := Option.bind_eq_some_iff.mp hg
    obtain ⟨other, hnames, hreached⟩ := h.resolve?_eq_some.mp hresolve
    obtain ⟨s', hs'⟩ := seat_of_reached hreached
    exact ⟨target, other, s', htarget, hnames, hs'.places_eq⟩

theorem renders_on (hfits : d.Fits catalog place s) {x : String × OneOrMany TransitionDef}
    (hx : x ∈ s.body.on.entries) :
    List.Forall₂ (Renders d (Layout.of d).toTree n place)
      (x.2.items.map ((Layout.of d).transition (Layout.of d).actions n)) x.2.items := by
  refine List.forall₂_map_left_iff.mpr (List.forall₂_same.mpr fun decl hdecl => ?_)
  have hdeclares : s.body.Declares (d.idOf place) x.1 decl := .inl ⟨x.2, hx, hdecl⟩
  exact h.renders hfits hdeclares.mem.1 hdeclares.mem.2

theorem renders_after (hfits : d.Fits catalog place s) :
    List.Forall₂ (fun (delay : Delay) y => Denotes y.1 delay.millis ∧
        delay.event = "after(" ++ toString delay.millis ++ ")#" ++ d.idOf place ∧
        Renders d (Layout.of d).toTree n place delay.transition y.2)
      (s.body.after.entries.filterMap fun y => (readMillis? y.1).map fun millis =>
        (⟨millis, Event.delayName millis (d.idOf place),
          (Layout.of d).transition (Layout.of d).actions n y.2⟩ : Delay))
      s.body.after.entries := by
  refine forall₂_filterMap fun y hy => ?_
  obtain ⟨millis, hmillis⟩ := hfits.delays y.1 (List.mem_map.mpr ⟨y, hy, rfl⟩)
  have hdeclares : s.body.Declares (d.idOf place) (Event.delayName millis (d.idOf place)) y.2 :=
    .inr ⟨y.1, millis, hy, hmillis, rfl⟩
  refine ⟨_, by rw [readMillis?_eq_some.mpr hmillis]; rfl, hmillis, rfl, ?_⟩
  exact h.renders hfits hdeclares.mem.1 hdeclares.mem.2

/-- The nodes of the children have their keys. -/
theorem keys_children :
    (((Layout.of d).slot n).children.map fun c => ((Layout.of d).toTree.node c).key) =
      s.children.map StateDef.key := by
  have hkey : (((Layout.of d).slot n).children.map
      fun c => ((Layout.of d).toTree.node c).key) =
      ((Layout.of d).slot n).children.map fun c => ((Layout.of d).slot c).body.key := by
    refine List.map_congr_left fun c hc => ?_
    rw [Layout.node_toTree ((Layout.wired_of d).child n c hc).2.1]
    rfl
  have hbodies := congrArg (List.map StateBody.key) h.body_children
  rw [List.map_map, List.map_map] at hbodies
  exact hkey.trans hbodies

theorem key_initial (hfits : d.Fits catalog place s) :
    ((s.body.initial.bind ((Layout.of d).child? n)).map
      fun c => ((Layout.of d).toTree.node c).key) = s.body.initial := by
  cases hinitial : s.body.initial with
  | none => rfl
  | some key =>
    have hchildren : s.children ≠ [] := fun hnil =>
      nomatch hinitial.symm.trans (hfits.leaf hnil)
    obtain ⟨c, hc, hkey⟩ := hfits.initial hchildren
    obtain rfl := Option.some.inj (hinitial.symm.trans hkey)
    have hsome := h.child?_isSome c.key
    rw [(d.ordered.at? h.found).child? hc] at hsome
    obtain ⟨m, hm⟩ := Option.isSome_iff_exists.mp hsome
    have hlt := ((Layout.wired_of d).child n m (Layout.mem_children_of_child? hm)).2.1
    have hfound : ((Layout.of d).slot m).body.key = c.key := by
      simpa using List.find?_some hm
    rw [Option.bind_some, hm, Option.map_some, Layout.node_toTree hlt]
    exact congrArg some hfound

/-- **The node of a state has all that the state declares.** -/
theorem image (hfits : d.Fits catalog place s) (htree : (Layout.of d).toTree.WellFormed) :
    Image d (Layout.of d).toTree n place s := by
  have hascending := htree.after n
  have hnode := Layout.node_toTree h.lt
  have hactions {names : List String} (hnames : ∀ name ∈ names, name ∈ s.body.actionNames) :
      (Layout.actionIds (Layout.of d).actions names).map (Layout.of d).toTree.actionName = names :=
    Layout.map_actionName fun name hname => h.mem_actions (hnames name hname)
  rw [hnode] at hascending
  constructor
  all_goals rw [hnode]
  case key => exact congrArg StateBody.key h.body
  case id => exact h.id
  case children => exact h.keys_children
  case initial =>
    simp only [Layout.node, h.body]
    exact h.key_initial hfits
  case description => exact congrArg StateBody.description h.body
  case entry =>
    simp only [Layout.node, h.body]
    exact hactions fun name hname => by simp [StateBody.actionNames, hname]
  case exit =>
    simp only [Layout.node, h.body]
    exact hactions fun name hname => by simp [StateBody.actionNames, hname]
  case on =>
    simp only [Layout.node, h.body, Dict.mapValues]
    refine List.forall₂_map_left_iff.mpr (List.forall₂_same.mpr fun x hx => ?_)
    exact ⟨rfl, h.renders_on hfits hx⟩
  case after =>
    simp only [Layout.node, Layout.delays, h.body, h.id]
    exact ⟨_, (Delay.perm_sort _).symm, h.renders_after hfits⟩
  case ascending => exact hascending
  case invoke =>
    simp only [Layout.node, h.body, List.map_map]
    refine List.map_congr_left fun v hv => ?_
    have hservice := Layout.serviceName_idxOf (h.mem_services (List.mem_map.mpr ⟨v, hv, rfl⟩))
    exact Prod.ext rfl hservice

end Seat

end Definition

/-- **A tree that was built has all of its definition, and nothing else.** Its nodes are the states
in pre-order, siblings in the order of their keys, and each node has what its state declares. Its
actions and services are those that the definition refers to, each listed once. -/
theorem StateTree.image_of_build {d : Definition} {catalog : Catalog} {t : StateTree}
    (h : StateTree.build d catalog = .ok t) :
    t.size = (d.root.places []).length ∧
    (∀ k place s, (d.root.places [])[k]? = some (place, s) →
      d.root.at? place = some s ∧ Keyed.Ascending StateDef.key s.children ∧
        Image d t ⟨k⟩ place s) ∧
    t.actions.Nodup ∧
    (∀ name, name ∈ t.actions ↔ ∃ x ∈ d.root.places [], name ∈ x.2.body.actionNames) ∧
    t.services.Nodup ∧
    ∀ name, name ∈ t.services ↔ ∃ x ∈ d.root.places [], name ∈ x.2.body.serviceNames := by
  have htree := StateTree.wellFormed_of_build h
  obtain ⟨hnil, rfl⟩ := StateTree.defects_of_build h
  refine ⟨?_, ?_, nodup_eraseDups _, ?_, nodup_eraseDups _, ?_⟩
  · rw [Layout.size_toTree, Definition.size_layout, StateDef.length_places]
  · intro k place s hplace
    have hseat := Definition.seat_of_places hplace
    have hordered := d.ordered.at? hseat.found
    have hfits := (Definition.wellFormed_of_defects hnil).state place s hseat.found
    refine ⟨hseat.found, ?_, hseat.image hfits htree⟩
    obtain ⟨body, children⟩ := s
    exact hordered.1
  · intro name
    exact Layout.mem_actions.trans (Definition.exists_slot_iff (P := fun b => name ∈ b.actionNames))
  · intro name
    exact Layout.mem_services.trans
      (Definition.exists_slot_iff (P := fun b => name ∈ b.serviceNames))

/-- A lock that is shut clicks after a while and later opens. -/
def lock : Definition := .ofRoot <| Draft.toDef <|
  (((Draft.new "lock").initial "shut").state
    (((Draft.new "shut").after (.ofMillis 1000) (.goto "open")).after (.ofMillis 50)
      (TransitionDef.targetless.action "click")))
    |>.state ((Draft.new "open").invoke "alarm")

def lockTree : StateTree := (Layout.of lock).toTree

theorem build_lock : StateTree.build lock .everything = .ok lockTree := rfl

/-- The delays of the lock are in the order of their lengths, not in that of their keys. -/
theorem lock_image : ∃ s, (lock.root.places [])[2]? = some (["shut"], s) ∧
    Image lock lockTree ⟨2⟩ ["shut"] s ∧ s.body.after.keys = ["1000", "50"] ∧
    (lockTree.node ⟨2⟩).after.map Delay.millis = [50, 1000] := by
  obtain ⟨-, himage, -⟩ := StateTree.image_of_build build_lock
  exact ⟨_, rfl, (himage 2 ["shut"] _ rfl).2.2, rfl, rfl⟩

end Statechart
