import Mathlib.Data.List.Pairwise
import Statechart.Proofs.Tree.Places

/-!
# Which definitions are accepted

A definition is well-formed if its keys are plain, every state with children has an initial one
among them and no other state has any, all targets resolve, all actions and services are there, and
the delays of each state are different numbers (`Definition.WellFormed`). These are the definitions
that have a tree; any other is refused with a list of defects, each of which it has
(`StateTree.build_iff`). So no defect is found where there is none, and no definition with a defect
slips through, though of a delay that is at fault nothing else is looked at.
-/

namespace Statechart

namespace StateBody

/-- All transitions that a state declares. -/
def transitions (b : StateBody) : List TransitionDef :=
  b.on.values.flatMap OneOrMany.items ++ b.after.values

/-- The transition is declared on the event, or after a delay that the event stands for in the state
with the given id. -/
def Declares (b : StateBody) (id event : String) (t : TransitionDef) : Prop :=
  (∃ candidates, (event, candidates) ∈ b.on.entries ∧ t ∈ candidates.items) ∨
    ∃ key millis, (key, t) ∈ b.after.entries ∧ Denotes key millis ∧
      event = Event.delayName millis id

theorem Declares.mem {b : StateBody} {id event : String} {t : TransitionDef}
    (h : b.Declares id event t) :
    t ∈ b.transitions ∧ ∀ name ∈ t.actions.items, name ∈ b.actionNames := by
  rcases h with ⟨candidates, he, ht⟩ | ⟨key, millis, he, -, -⟩
  · have hvalues : candidates ∈ b.on.values := List.mem_map.mpr ⟨_, he, rfl⟩
    refine ⟨List.mem_append_left _ (List.mem_flatMap.mpr ⟨candidates, hvalues, ht⟩), ?_⟩
    intro name hname
    exact List.mem_append_left _ (List.mem_append_right _ (List.mem_flatMap.mpr
      ⟨candidates, hvalues, List.mem_flatMap.mpr ⟨t, ht, hname⟩⟩))
  · have hvalues : t ∈ b.after.values := List.mem_map.mpr ⟨_, he, rfl⟩
    refine ⟨List.mem_append_right _ hvalues, ?_⟩
    intro name hname
    exact List.mem_append_right _ (List.mem_flatMap.mpr ⟨t, hvalues, hname⟩)

end StateBody

namespace Definition

variable (d : Definition) (catalog : Catalog)

/-- The id of the state at a place. -/
def idOf (place : List String) : String := Text.join (d.id :: place)

/-- The target, declared at a place, names a state. -/
def Resolves (place : List String) (target : String) : Prop :=
  ∃ other s, Names d.id place target other ∧ d.root.at? other = some s

/-- Nothing is wrong with the state at a place. -/
structure Fits (place : List String) (s : StateDef) : Prop where
  keys : ∀ c ∈ s.children, IsValidKey c.key
  initial : s.children ≠ [] → ∃ c ∈ s.children, s.body.initial = some c.key
  leaf : s.children = [] → s.body.initial = none
  targets : ∀ t ∈ s.body.transitions, ∀ target, t.target = some target → d.Resolves place target
  actions : ∀ name ∈ s.body.actionNames, catalog.hasAction name = true
  services : ∀ name ∈ s.body.serviceNames, catalog.hasService name = true
  delays : ∀ key ∈ s.body.after.keys, ∃ n, Denotes key n
  distinct : ∀ a ∈ s.body.after.keys, ∀ b ∈ s.body.after.keys, ∀ n, Denotes a n → Denotes b n →
    a = b

/-- Nothing is wrong with the definition. -/
structure WellFormed : Prop where
  machine : IsValidKey d.id
  state : ∀ place s, d.root.at? place = some s → d.Fits catalog place s

/-- The definition has the defect. -/
inductive HasDefect : Defect → Prop
  | invalidMachineId (h : ¬ IsValidKey d.id) : HasDefect (.invalidMachineId d.id)
  | invalidStateKey {place : List String} {s c : StateDef} (hs : d.root.at? place = some s)
      (hc : c ∈ s.children) (h : ¬ IsValidKey c.key) :
      HasDefect (.invalidStateKey (d.idOf place) c.key)
  | missingInitial {place : List String} {s : StateDef} (hs : d.root.at? place = some s)
      (hchildren : s.children ≠ []) (h : s.body.initial = none) :
      HasDefect (.missingInitial (d.idOf place))
  | unknownInitial {place : List String} {s : StateDef} {key : String}
      (hs : d.root.at? place = some s) (hchildren : s.children ≠ [])
      (hinitial : s.body.initial = some key) (h : ∀ c ∈ s.children, c.key ≠ key) :
      HasDefect (.unknownInitial (d.idOf place) key)
  | initialOnLeaf {place : List String} {s : StateDef} {key : String}
      (hs : d.root.at? place = some s) (hleaf : s.children = [])
      (h : s.body.initial = some key) : HasDefect (.initialOnLeaf (d.idOf place) key)
  | unresolvedTarget {place : List String} {s : StateDef} {event target : String}
      {t : TransitionDef} (hs : d.root.at? place = some s)
      (ht : s.body.Declares (d.idOf place) event t) (htarget : t.target = some target)
      (h : ¬ d.Resolves place target) :
      HasDefect (.unresolvedTarget (d.idOf place) event target)
  | unknownAction {place : List String} {s : StateDef} {name : String}
      (hs : d.root.at? place = some s) (hname : name ∈ s.body.actionNames)
      (h : catalog.hasAction name = false) : HasDefect (.unknownAction (d.idOf place) name)
  | unknownService {place : List String} {s : StateDef} {name : String}
      (hs : d.root.at? place = some s) (hname : name ∈ s.body.serviceNames)
      (h : catalog.hasService name = false) : HasDefect (.unknownService (d.idOf place) name)
  | invalidDelay {place : List String} {s : StateDef} {key : String}
      (hs : d.root.at? place = some s) (hkey : key ∈ s.body.after.keys)
      (h : ∀ n, ¬ Denotes key n) : HasDefect (.invalidDelay (d.idOf place) key)
  | duplicateDelay {place : List String} {s : StateDef} {a b : String} {n : Nat}
      (hs : d.root.at? place = some s) (ha : a ∈ s.body.after.keys) (hb : b ∈ s.body.after.keys)
      (hne : a ≠ b) (hn : Denotes a n) (hn' : Denotes b n) :
      HasDefect (.duplicateDelay (d.idOf place) n)

variable {d catalog}

/-- A well-formed definition has no defects. -/
theorem WellFormed.no_defect (h : d.WellFormed catalog) (e : Defect) :
    ¬ d.HasDefect catalog e := by
  intro he
  cases he with
  | invalidMachineId hkey => exact hkey h.machine
  | invalidStateKey hs hc hkey => exact hkey ((h.state _ _ hs).keys _ hc)
  | missingInitial hs hchildren hnone =>
    obtain ⟨c, -, hinitial⟩ := (h.state _ _ hs).initial hchildren
    exact nomatch hnone.symm.trans hinitial
  | unknownInitial hs hchildren hinitial hunknown =>
    obtain ⟨c, hc, hinitial'⟩ := (h.state _ _ hs).initial hchildren
    exact hunknown c hc (Option.some.inj (hinitial'.symm.trans hinitial))
  | initialOnLeaf hs hleaf hinitial =>
    exact nomatch hinitial.symm.trans ((h.state _ _ hs).leaf hleaf)
  | unresolvedTarget hs ht htarget hunresolved =>
    exact hunresolved ((h.state _ _ hs).targets _ ht.mem.1 _ htarget)
  | unknownAction hs hname hunknown =>
    exact nomatch hunknown.symm.trans ((h.state _ _ hs).actions _ hname)
  | unknownService hs hname hunknown =>
    exact nomatch hunknown.symm.trans ((h.state _ _ hs).services _ hname)
  | invalidDelay hs hkey hinvalid =>
    obtain ⟨n, hn⟩ := (h.state _ _ hs).delays _ hkey
    exact hinvalid n hn
  | duplicateDelay hs ha hb hne hn hn' =>
    exact hne ((h.state _ _ hs).distinct _ ha _ hb _ hn hn')

theorem Seat.resolves_iff {n : StateId} {place : List String} {s : StateDef}
    (h : d.Seat n place s) {target : String} :
    ((Layout.of d).resolve? n target).isSome = true ↔ d.Resolves place target := by
  rw [Option.isSome_iff_exists]
  constructor
  · rintro ⟨g, hg⟩
    obtain ⟨other, hnames, hreached⟩ := h.resolve?_eq_some.mp hg
    obtain ⟨s', hs'⟩ := seat_of_reached hreached
    exact ⟨other, s', hnames, hs'.found⟩
  · rintro ⟨other, s', hnames, hfound⟩
    obtain ⟨g, hg⟩ := exists_seat hfound
    exact ⟨g, h.resolve?_eq_some.mpr ⟨other, hnames, hg.reached⟩⟩

end Definition

/-! ### Defects that are found -/

namespace Layout

variable {l : Layout} {catalog : Catalog} {n : StateId} {e : Defect}

theorem mem_actionDefects {names : List String} (h : e ∈ l.actionDefects catalog n names) :
    ∃ name ∈ names, catalog.hasAction name = false ∧ e = .unknownAction (l.slot n).id name := by
  obtain ⟨name, hname, rfl⟩ := List.mem_map.mp h
  obtain ⟨hmem, hunknown⟩ := List.mem_filter.mp hname
  exact ⟨name, hmem, by simpa using hunknown, rfl⟩

theorem actionDefects_eq_nil {names : List String} (h : l.actionDefects catalog n names = []) :
    ∀ name ∈ names, catalog.hasAction name = true := by
  intro name hname
  simp only [actionDefects, List.map_eq_nil_iff, List.filter_eq_nil_iff] at h
  simpa using h name hname

theorem mem_transitionDefects {event : String} {t : TransitionDef}
    (h : e ∈ l.transitionDefects catalog n event t) :
    (∃ target, t.target = some target ∧ (l.resolve? n target).isSome = false ∧
      e = .unresolvedTarget (l.slot n).id event target) ∨
    ∃ name ∈ t.actions.items, catalog.hasAction name = false ∧
      e = .unknownAction (l.slot n).id name := by
  rcases List.mem_append.mp h with h | h
  · cases htarget : t.target with
    | none => simp [htarget] at h
    | some target =>
      simp only [htarget] at h
      split at h
      case isTrue => cases h
      case isFalse hresolve =>
        rw [Bool.not_eq_true] at hresolve
        exact .inl ⟨target, rfl, hresolve, List.mem_singleton.mp h⟩
  · exact .inr (mem_actionDefects h)

theorem transitionDefects_eq_nil {event : String} {t : TransitionDef}
    (h : l.transitionDefects catalog n event t = []) :
    (∀ target, t.target = some target → (l.resolve? n target).isSome = true) ∧
    ∀ name ∈ t.actions.items, catalog.hasAction name = true := by
  obtain ⟨htarget, hactions⟩ := List.append_eq_nil_iff.mp h
  refine ⟨?_, actionDefects_eq_nil hactions⟩
  intro target hsome
  by_contra hnone
  simp [hsome, hnone] at htarget

/-- The defects of delayed transitions: a delay is no number, or two are the same, or it is a defect
of a transition whose delay is all right. -/
inductive DelayDefect (l : Layout) (catalog : Catalog) (n : StateId)
    (entries : List (String × TransitionDef)) : Defect → Prop
  | invalid {key : String} {t : TransitionDef} (hx : (key, t) ∈ entries)
      (hread : readMillis? key = none) :
      DelayDefect l catalog n entries (.invalidDelay (l.slot n).id key)
  | duplicate {front back : List (String × TransitionDef)} {x y : String × TransitionDef}
      {millis : Nat} (hx : entries = front ++ x :: back) (hy : y ∈ front)
      (hread : readMillis? x.1 = some millis) (hread' : readMillis? y.1 = some millis) :
      DelayDefect l catalog n entries (.duplicateDelay (l.slot n).id millis)
  | transition {key : String} {t : TransitionDef} {millis : Nat} {e : Defect}
      (hx : (key, t) ∈ entries) (hread : readMillis? key = some millis)
      (h : e ∈ l.transitionDefects catalog n (Event.delayName millis (l.slot n).id) t) :
      DelayDefect l catalog n entries e

theorem mem_delayDefects {all earlier entries : List (String × TransitionDef)} {seen : List Nat}
    (hall : all = earlier ++ entries)
    (hseen : ∀ millis ∈ seen, ∃ x ∈ earlier, readMillis? x.1 = some millis)
    (h : e ∈ l.delayDefects catalog n seen entries) : DelayDefect l catalog n all e := by
  induction entries generalizing earlier seen with
  | nil => simp [delayDefects] at h
  | cons x rest ih =>
    obtain ⟨key, t⟩ := x
    have hx : (key, t) ∈ all := hall ▸ by simp
    have hall' : all = (earlier ++ [(key, t)]) ++ rest := by rw [hall, List.append_assoc]; rfl
    have hseen' (millis : Nat) (hm : millis ∈ seen) :
        ∃ x ∈ earlier ++ [(key, t)], readMillis? x.1 = some millis := by
      obtain ⟨x, hx, hread⟩ := hseen millis hm
      exact ⟨x, List.mem_append_left _ hx, hread⟩
    simp only [delayDefects] at h
    cases hread : readMillis? key with
    | none =>
      simp only [hread] at h
      rcases List.mem_cons.mp h with rfl | h
      · exact .invalid hx hread
      · exact ih hall' hseen' h
    | some millis =>
      simp only [hread] at h
      split at h
      case isTrue hm =>
        rcases List.mem_cons.mp h with rfl | h
        · obtain ⟨y, hy, hread'⟩ := hseen millis hm
          exact .duplicate hall hy hread hread'
        · exact ih hall' hseen' h
      case isFalse =>
        rcases List.mem_append.mp h with h | h
        · exact .transition hx hread h
        · refine ih hall' ?_ h
          refine List.forall_mem_cons.mpr ⟨⟨(key, t), by simp, hread⟩, hseen'⟩

theorem delayDefects_eq_nil {entries : List (String × TransitionDef)} {seen : List Nat}
    (h : l.delayDefects catalog n seen entries = []) :
    ∀ x ∈ entries, ∃ millis, readMillis? x.1 = some millis ∧
      l.transitionDefects catalog n (Event.delayName millis (l.slot n).id) x.2 = [] := by
  induction entries generalizing seen with
  | nil => nofun
  | cons x rest ih =>
    obtain ⟨key, t⟩ := x
    simp only [delayDefects] at h
    cases hread : readMillis? key with
    | none => simp [hread] at h
    | some millis =>
      simp only [hread] at h
      split at h
      case isTrue => cases h
      case isFalse =>
        obtain ⟨ht, hrest⟩ := List.append_eq_nil_iff.mp h
        exact List.forall_mem_cons.mpr ⟨⟨millis, hread, ht⟩, ih hrest⟩

theorem mem_states : n ∈ l.states ↔ n.index < l.slots.size := by
  constructor
  · intro h
    obtain ⟨k, hk, rfl⟩ := List.mem_map.mp h
    exact List.mem_range.mp hk
  · intro h
    exact List.mem_map.mpr ⟨n.index, List.mem_range.mpr h, rfl⟩

theorem mem_slots (hn : n.index < l.slots.size) : l.slot n ∈ l.slots.toList := by
  simp [Layout.slot, hn]

theorem exists_of_mem_slots {slot : Slot} (h : slot ∈ l.slots.toList) :
    ∃ n : StateId, n.index < l.slots.size ∧ l.slot n = slot := by
  obtain ⟨k, hk, hslot⟩ := List.mem_iff_getElem.mp h
  rw [Array.length_toList] at hk
  refine ⟨⟨k⟩, hk, ?_⟩
  simp [Layout.slot, hk, ← hslot]

/-- Where no value occurs twice, what has a value is determined by it. -/
theorem eq_of_nodup_filterMap {α β : Type} {f : α → Option β} {as : List α}
    (h : (as.filterMap f).Nodup) {a b : α} {v : β} (ha : a ∈ as) (hb : b ∈ as)
    (hv : f a = some v) (hv' : f b = some v) : a = b := by
  by_contra hne
  let apart (a b : α) : Prop := ∀ v ∈ f a, ∀ w ∈ f b, v ≠ w
  have hapart : as.Pairwise apart := List.pairwise_filterMap.mp h
  have hsymm : Std.Symm apart := ⟨fun a b hab v hv w hw => (hab w hw v hv).symm⟩
  exact hapart.forall ha hb hne v hv v hv' rfl

end Layout

namespace Definition

variable {d : Definition} {catalog : Catalog} {n : StateId} {place : List String} {s : StateDef}
  {e : Defect}

theorem readMillis?_eq_none {key : String} (h : readMillis? key = none) (n : Nat) :
    ¬ Denotes key n := by
  intro hn
  exact nomatch h.symm.trans (readMillis?_eq_some.mpr hn)

/-- The defects of a transition that are found are defects. -/
theorem Seat.transition_hasDefect (h : d.Seat n place s) {event : String} {t : TransitionDef}
    (ht : s.body.Declares (d.idOf place) event t)
    (he : e ∈ (Layout.of d).transitionDefects catalog n event t) : d.HasDefect catalog e := by
  rcases Layout.mem_transitionDefects he with
    ⟨target, htarget, hnone, rfl⟩ | ⟨name, hname, hunknown, rfl⟩
  · rw [h.id]
    refine .unresolvedTarget h.found ht htarget ?_
    rw [← h.resolves_iff, hnone]
    simp
  · rw [h.id]
    exact .unknownAction h.found (ht.mem.2 name hname) hunknown

theorem Seat.initial_hasDefect (h : d.Seat n place s) (he : e ∈ (Layout.of d).initialDefects n) :
    d.HasDefect catalog e := by
  have hfound := h.found
  simp only [Layout.initialDefects, h.body, h.id, h.isEmpty_children] at he
  cases hinitial : s.body.initial with
  | none =>
    cases hchildren : s.children with
    | nil => simp [hinitial, hchildren] at he
    | cons c rest =>
      simp only [hinitial, hchildren, List.isEmpty_cons, List.mem_singleton] at he
      subst he
      exact .missingInitial hfound (by simp [hchildren]) hinitial
  | some key =>
    cases hchildren : s.children with
    | nil =>
      simp only [hinitial, hchildren, List.isEmpty_nil, List.mem_singleton] at he
      subst he
      exact .initialOnLeaf hfound hchildren hinitial
    | cons c rest =>
      simp only [hinitial, hchildren, List.isEmpty_cons, h.child?_isSome] at he
      split at he
      case isTrue => cases he
      case isFalse hunknown =>
        rw [List.mem_singleton] at he
        subst he
        refine .unknownInitial hfound (by simp [hchildren]) hinitial ?_
        exact StateDef.child?_eq_none.mp (by simpa using hunknown)

theorem Seat.delay_hasDefect (h : d.Seat n place s)
    (he : e ∈ (Layout.of d).delayDefects catalog n [] s.body.after.entries) :
    d.HasDefect catalog e := by
  have hkey {key : String} {t : TransitionDef} (hx : (key, t) ∈ s.body.after.entries) :
      key ∈ s.body.after.keys := List.mem_map.mpr ⟨_, hx, rfl⟩
  cases Layout.mem_delayDefects (List.nil_append _).symm (by simp) he with
  | invalid hx hread =>
    rw [h.id]
    exact .invalidDelay h.found (hkey hx) (readMillis?_eq_none hread)
  | @duplicate front back x y millis hx hy hread hread' =>
    -- The keys are in strictly ascending order, so they differ.
    have hlt : y.1 < x.1 := by
      have hascending := s.body.after.ascending
      rw [hx] at hascending
      exact (List.pairwise_append.mp hascending).2.2 y hy x List.mem_cons_self
    have hne : x.1 ≠ y.1 := fun hsame => String.lt_irrefl _ (hsame ▸ hlt)
    rw [h.id]
    have hmem : x ∈ s.body.after.entries ∧ y ∈ s.body.after.entries := by simp [hx, hy]
    exact .duplicateDelay h.found (hkey hmem.1) (hkey hmem.2) hne
      (readMillis?_eq_some.mp hread) (readMillis?_eq_some.mp hread')
  | transition hx hread ht =>
    rw [h.id] at ht
    exact h.transition_hasDefect
      (.inr ⟨_, _, hx, readMillis?_eq_some.mp hread, rfl⟩) ht

/-- **The defects of a state that are found are defects.** -/
theorem Seat.hasDefect (h : d.Seat n place s)
    (he : e ∈ (Layout.of d).stateDefects catalog n) : d.HasDefect catalog e := by
  have hactions {names : List String} (hnames : ∀ name ∈ names, name ∈ s.body.actionNames)
      (he : e ∈ (Layout.of d).actionDefects catalog n names) : d.HasDefect catalog e := by
    obtain ⟨name, hname, hunknown, rfl⟩ := Layout.mem_actionDefects he
    rw [h.id]
    exact .unknownAction h.found (hnames name hname) hunknown
  simp only [Layout.stateDefects, h.body, List.mem_append] at he
  rcases he with ((((he | he) | he) | he) | he) | he
  · exact h.initial_hasDefect he
  · exact hactions (fun name hname => by simp [StateBody.actionNames, hname]) he
  · exact hactions (fun name hname => by simp [StateBody.actionNames, hname]) he
  · rw [Layout.eventDefects, h.body] at he
    obtain ⟨x, hx, he⟩ := List.mem_flatMap.mp he
    obtain ⟨t, ht, he⟩ := List.mem_flatMap.mp he
    exact h.transition_hasDefect (.inl ⟨x.2, hx, ht⟩) he
  · exact h.delay_hasDefect he
  · obtain ⟨i, hi, rfl⟩ := List.mem_map.mp he
    obtain ⟨hmem, hunknown⟩ := List.mem_filter.mp hi
    rw [h.body] at hmem
    rw [h.id]
    exact .unknownService h.found (List.mem_map.mpr ⟨i, hmem, rfl⟩) (by simpa using hunknown)

/-- **All defects that are found are defects.** -/
theorem hasDefect_of_mem (he : e ∈ d.defects catalog) : d.HasDefect catalog e := by
  simp only [defects, List.mem_append] at he
  rcases he with (he | he) | he
  · split at he
    case isTrue => cases he
    case isFalse hkey =>
      obtain rfl := List.mem_singleton.mp he
      exact .invalidMachineId hkey
  · obtain ⟨slot, hslot, hdefect⟩ := List.mem_filterMap.mp he
    obtain ⟨n, hn, rfl⟩ := Layout.exists_of_mem_slots hslot
    obtain ⟨place, s, -, h⟩ := exists_place hn
    rcases h.parent with ⟨-, hnone⟩ | ⟨p, above, key, up, rfl, hparent, hup, hmem, -⟩
    · simp [hnone] at hdefect
    · simp only [hparent, Option.ite_none_left_eq_some, Option.some.injEq] at hdefect
      obtain ⟨hkey, rfl⟩ := hdefect
      rw [h.body] at hkey ⊢
      rw [hup.id]
      exact .invalidStateKey hup.found hmem hkey
  · obtain ⟨n, hn, he⟩ := List.mem_flatMap.mp he
    obtain ⟨place, s, -, h⟩ := exists_place (Layout.mem_states.mp hn)
    exact h.hasDefect he

/-! ### Defects are found -/

/-- Where no defect is found all transitions are all right. -/
theorem Seat.transitions_fit (h : d.Seat n place s)
    (hnil : (Layout.of d).stateDefects catalog n = []) :
    ∀ t ∈ s.body.transitions, (∀ target, t.target = some target → d.Resolves place target) ∧
      ∀ name ∈ t.actions.items, catalog.hasAction name = true := by
  simp only [Layout.stateDefects, h.body, List.append_eq_nil_iff] at hnil
  obtain ⟨⟨⟨-, hevents⟩, hdelays⟩, -⟩ := hnil
  have hfit {event : String} {t : TransitionDef}
      (ht : (Layout.of d).transitionDefects catalog n event t = []) :
      (∀ target, t.target = some target → d.Resolves place target) ∧
        ∀ name ∈ t.actions.items, catalog.hasAction name = true := by
    obtain ⟨htarget, hactions⟩ := Layout.transitionDefects_eq_nil ht
    exact ⟨fun target htarget' => h.resolves_iff.mp (htarget target htarget'), hactions⟩
  intro t ht
  rcases List.mem_append.mp ht with ht | ht
  · obtain ⟨candidates, hcandidates, ht⟩ := List.mem_flatMap.mp ht
    obtain ⟨x, hx, rfl⟩ := List.mem_map.mp hcandidates
    rw [Layout.eventDefects, h.body, List.flatMap_eq_nil_iff] at hevents
    exact hfit (List.flatMap_eq_nil_iff.mp (hevents x hx) t ht)
  · obtain ⟨x, hx, rfl⟩ := List.mem_map.mp ht
    obtain ⟨millis, -, hnone⟩ := Layout.delayDefects_eq_nil hdelays x hx
    exact hfit hnone

theorem Seat.initial_fits (h : d.Seat n place s) (hnil : (Layout.of d).initialDefects n = []) :
    (s.children ≠ [] → ∃ c ∈ s.children, s.body.initial = some c.key) ∧
    (s.children = [] → s.body.initial = none) := by
  simp only [Layout.initialDefects, h.body, h.isEmpty_children, h.child?_isSome] at hnil
  constructor
  · intro hchildren
    have hempty : s.children.isEmpty = false := by simpa using hchildren
    cases hinitial : s.body.initial with
    | none => simp [hinitial, hempty] at hnil
    | some key =>
      cases hc : s.child? key with
      | none => simp [hinitial, hempty, hc] at hnil
      | some c =>
        obtain ⟨hmem, rfl⟩ := StateDef.mem_of_child? hc
        exact ⟨c, hmem, rfl⟩
  · intro hchildren
    cases hinitial : s.body.initial with
    | none => rfl
    | some key => simp [hinitial, hchildren] at hnil

theorem Seat.keys_fit (h : d.Seat n place s) (hnil : (Layout.of d).keyDefects = [])
    {c : StateDef} (hc : c ∈ s.children) : IsValidKey c.key := by
  have hfound : d.root.at? (place ++ [c.key]) = some c := by
    rw [StateDef.at?_append, h.found, Option.bind_some, StateDef.at?_singleton]
    exact (d.ordered.at? h.found).child? hc
  obtain ⟨m, hm⟩ := exists_seat hfound
  rcases hm.parent with ⟨hroot, -⟩ | ⟨p, -, -, -, -, hparent, -⟩
  · simp at hroot
  · have hkey := List.filterMap_eq_nil_iff.mp hnil _ (Layout.mem_slots hm.lt)
    simp only [hparent, hm.body] at hkey
    by_contra hbad
    have hbad : ¬ IsValidKey c.body.key := hbad
    rw [if_neg hbad] at hkey
    cases hkey

/-- **A state where no defect is found is all right.** -/
theorem Seat.fits (h : d.Seat n place s) (hkeys : (Layout.of d).keyDefects = [])
    (hnil : (Layout.of d).stateDefects catalog n = []) : d.Fits catalog place s := by
  have htransitions := h.transitions_fit hnil
  simp only [Layout.stateDefects, h.body, List.append_eq_nil_iff] at hnil
  obtain ⟨⟨⟨⟨⟨hinitial, hentry⟩, hexit⟩, -⟩, hdelays⟩, hservices⟩ := hnil
  obtain ⟨hchildren, hleaf⟩ := h.initial_fits hinitial
  constructor
  case keys => exact fun c hc => h.keys_fit hkeys hc
  case initial => exact hchildren
  case leaf => exact hleaf
  case targets => exact fun t ht => (htransitions t ht).1
  case actions =>
    intro name hname
    simp only [StateBody.actionNames, List.mem_append, List.mem_flatMap] at hname
    rcases hname with ((hname | hname) | ⟨candidates, hcandidates, t, ht, hname⟩) |
      ⟨t, ht, hname⟩
    · exact Layout.actionDefects_eq_nil hentry name hname
    · exact Layout.actionDefects_eq_nil hexit name hname
    · have hmem : t ∈ s.body.transitions :=
        List.mem_append_left _ (List.mem_flatMap.mpr ⟨candidates, hcandidates, ht⟩)
      exact (htransitions t hmem).2 name hname
    · exact (htransitions t (List.mem_append_right _ ht)).2 name hname
  case services =>
    intro name hname
    obtain ⟨i, hi, rfl⟩ := List.mem_map.mp hname
    rw [Layout.serviceDefects, h.body, List.map_eq_nil_iff, List.filter_eq_nil_iff] at hservices
    simpa using hservices i hi
  case delays =>
    intro key hkey
    obtain ⟨x, hx, rfl⟩ := List.mem_map.mp hkey
    obtain ⟨millis, hread, -⟩ := Layout.delayDefects_eq_nil hdelays x hx
    exact ⟨millis, readMillis?_eq_some.mp hread⟩
  case distinct =>
    intro a ha b hb n ha' hb'
    obtain ⟨x, hx, rfl⟩ := List.mem_map.mp ha
    obtain ⟨y, hy, rfl⟩ := List.mem_map.mp hb
    have hnodup := (Layout.nodup_millis_of_delayDefects hdelays).1
    rw [Layout.eq_of_nodup_filterMap hnodup hx hy (readMillis?_eq_some.mpr ha')
      (readMillis?_eq_some.mpr hb')]

/-- **A definition in which no defect is found is well-formed.** -/
theorem wellFormed_of_defects (hnil : d.defects catalog = []) : d.WellFormed catalog := by
  have hstates {n : StateId} (hn : n.index < (Layout.of d).slots.size) :=
    stateDefects_eq_nil hnil hn
  simp only [defects, List.append_eq_nil_iff] at hnil
  obtain ⟨⟨hmachine, hkeys⟩, -⟩ := hnil
  constructor
  case machine =>
    by_contra hbad
    rw [if_neg hbad] at hmachine
    cases hmachine
  case state =>
    intro place s hs
    obtain ⟨n, h⟩ := exists_seat hs
    exact h.fits hkeys (hstates h.lt)

end Definition

theorem StateTree.defects_of_build {d : Definition} {catalog : Catalog} {t : StateTree}
    (h : StateTree.build d catalog = .ok t) :
    d.defects catalog = [] ∧ t = (Layout.of d).toTree := by
  unfold StateTree.build at h
  split at h
  case h_1 hnil =>
    cases h
    exact ⟨hnil, rfl⟩
  case h_2 => cases h

/-- **Exactly the well-formed definitions have a tree.** A definition that is not well-formed is
refused; at least one defect is told then, and the definition has each defect that is told. -/
theorem StateTree.build_iff (d : Definition) (catalog : Catalog) :
    ((∃ t, StateTree.build d catalog = .ok t) ↔ d.WellFormed catalog) ∧
    (¬ d.WellFormed catalog ↔ ∃ defects, StateTree.build d catalog = .error defects) ∧
    ∀ defects, StateTree.build d catalog = .error defects →
      defects ≠ [] ∧ ∀ e ∈ defects, d.HasDefect catalog e := by
  have hsound : ∀ e ∈ d.defects catalog, d.HasDefect catalog e :=
    fun e he => Definition.hasDefect_of_mem he
  have hnil : d.defects catalog = [] ↔ d.WellFormed catalog := by
    refine ⟨Definition.wellFormed_of_defects, fun h => ?_⟩
    exact List.eq_nil_iff_forall_not_mem.mpr fun e he => h.no_defect e (hsound e he)
  rw [← hnil, StateTree.build]
  cases hdefects : d.defects catalog with
  | nil => simp
  | cons e rest =>
    rw [hdefects] at hsound
    refine ⟨by simp, by simp, ?_⟩
    rintro defects h
    cases h
    exact ⟨by simp, hsound⟩

end Statechart
