import Statechart.Proofs.Tree.Acceptance

/-!
# Which defects are told

A definition that is refused comes with a list of its defects. The list leaves out only what lies in
a delayed transition whose delay is itself at fault: the delay is told, its transition is not looked
at (`StateTree.mem_error_iff`). Where all delays are in order the list is complete; otherwise a
definition can be refused once more after everything that was told has been put right
(`kettle_not_all_told`).
-/

namespace Statechart

/-! ### Transitions that are looked at -/

namespace StateBody

variable (b : StateBody) (key : String) (n : Nat)

/-- The key stands for the number and is the first key of a delay that does. -/
def Counts : Prop := Denotes key n ∧ ∀ other ∈ b.after.keys, Denotes other n → key ≤ other

/-- The transition is declared on the event, or it is one after a delay that counts. -/
def Examines (id event : String) (t : TransitionDef) : Prop :=
  (∃ candidates, (event, candidates) ∈ b.on.entries ∧ t ∈ candidates.items) ∨
    ∃ key millis, (key, t) ∈ b.after.entries ∧ b.Counts key millis ∧
      event = Event.delayName millis id

variable {b key n}

theorem Examines.declares {id event : String} {t : TransitionDef} (h : b.Examines id event t) :
    b.Declares id event t := by
  rcases h with h | ⟨key, millis, he, hcounts, hevent⟩
  · exact .inl h
  · exact .inr ⟨key, millis, he, hcounts.1, hevent⟩

/-- Two keys for one number cannot both count. -/
theorem Counts.unique {other : String} (h : b.Counts key n) (h' : b.Counts other n)
    (hkey : key ∈ b.after.keys) (hother : other ∈ b.after.keys) : key = other :=
  String.le_antisymm (h.2 other hother h'.1) (h'.2 key hkey h.1)

/-- A key counts if no key before it stands for the same number. -/
theorem counts_iff {front back : List (String × TransitionDef)} {x : String × TransitionDef}
    (hx : b.after.entries = front ++ x :: back) :
    b.Counts x.1 n ↔ readMillis? x.1 = some n ∧ ∀ y ∈ front, readMillis? y.1 ≠ some n := by
  have hascending := b.after.ascending
  rw [hx] at hascending
  obtain ⟨-, hback, hfront⟩ := List.pairwise_append.mp hascending
  have hbefore : ∀ y ∈ front, y.1 < x.1 := fun y hy => hfront y hy x List.mem_cons_self
  have hbehind : ∀ y ∈ back, x.1 < y.1 := (List.pairwise_cons.mp hback).1
  have hkeys (other : String) : other ∈ b.after.keys ↔ ∃ y ∈ front ++ x :: back, y.1 = other := by
    rw [Dict.keys, hx, List.mem_map]
  constructor
  · rintro ⟨hn, hfirst⟩
    refine ⟨readMillis?_eq_some.mpr hn, fun y hy hread => ?_⟩
    have hle := hfirst y.1 ((hkeys _).mpr ⟨y, by simp [hy], rfl⟩) (readMillis?_eq_some.mp hread)
    exact hle (hbefore y hy)
  · rintro ⟨hread, hnew⟩
    refine ⟨readMillis?_eq_some.mp hread, fun other hother hn => ?_⟩
    obtain ⟨y, hy, rfl⟩ := (hkeys other).mp hother
    rcases List.mem_append.mp hy with hy | hy
    · exact absurd (readMillis?_eq_some.mpr hn) (hnew y hy)
    · rcases List.mem_cons.mp hy with rfl | hy
      · exact String.le_refl _
      · exact String.lt_asymm (hbehind y hy)

end StateBody

/-! ### What is found -/

namespace Layout

variable {l : Layout} {catalog : Catalog} {n : StateId} {e : Defect}

theorem mem_actionDefects_iff {names : List String} :
    e ∈ l.actionDefects catalog n names ↔ ∃ name ∈ names, catalog.hasAction name = false ∧
      e = .unknownAction (l.slot n).id name := by
  simp only [actionDefects, List.mem_map, List.mem_filter, Bool.not_eq_true', and_assoc,
    @eq_comm _ e]

theorem mem_transitionDefects_iff {event : String} {t : TransitionDef} :
    e ∈ l.transitionDefects catalog n event t ↔
      (∃ target, t.target = some target ∧ (l.resolve? n target).isSome = false ∧
        e = .unresolvedTarget (l.slot n).id event target) ∨
      ∃ name ∈ t.actions.items, catalog.hasAction name = false ∧
        e = .unknownAction (l.slot n).id name := by
  rw [transitionDefects, List.mem_append, mem_actionDefects_iff]
  refine or_congr_left ?_
  cases t.target with
  | none => simp
  | some target =>
    simp only [Option.some.injEq, exists_eq_left']
    cases (l.resolve? n target).isSome <;> simp

/-- The defects of one delayed transition, given the delays before it. -/
def entryDefects (l : Layout) (catalog : Catalog) (n : StateId) (seen : List Nat)
    (x : String × TransitionDef) : List Defect :=
  match readMillis? x.1 with
  | none => [.invalidDelay (l.slot n).id x.1]
  | some millis =>
    if millis ∈ seen then [.duplicateDelay (l.slot n).id millis]
    else l.transitionDefects catalog n (Event.delayName millis (l.slot n).id) x.2

/-- The delays seen after one more delayed transition. -/
def remember (seen : List Nat) (x : String × TransitionDef) : List Nat :=
  match readMillis? x.1 with
  | none => seen
  | some millis => if millis ∈ seen then seen else millis :: seen

theorem delayDefects_cons (seen : List Nat) (x : String × TransitionDef)
    (rest : List (String × TransitionDef)) :
    l.delayDefects catalog n seen (x :: rest) =
      l.entryDefects catalog n seen x ++ l.delayDefects catalog n (remember seen x) rest := by
  obtain ⟨key, t⟩ := x
  simp only [delayDefects, entryDefects, remember]
  cases readMillis? key with
  | none => rfl
  | some millis => by_cases hm : millis ∈ seen <;> simp [hm]

theorem mem_remember {seen : List Nat} {x : String × TransitionDef} {millis : Nat} :
    millis ∈ remember seen x ↔ millis ∈ seen ∨ readMillis? x.1 = some millis := by
  rw [remember]
  cases readMillis? x.1 with
  | none => simp
  | some m =>
    by_cases hm : m ∈ seen
    · simp only [if_pos hm, Option.some.injEq, iff_self_or]
      rintro rfl
      exact hm
    · simp only [if_neg hm, List.mem_cons, Option.some.injEq, or_comm, @eq_comm _ m]

theorem mem_foldl_remember {seen : List Nat} {front : List (String × TransitionDef)}
    {millis : Nat} : millis ∈ front.foldl remember seen ↔
      millis ∈ seen ∨ ∃ y ∈ front, readMillis? y.1 = some millis := by
  induction front generalizing seen with
  | nil => simp
  | cons x rest ih =>
    simp only [List.foldl_cons, ih, mem_remember, List.mem_cons, exists_eq_or_imp, or_assoc]

/-- Each defect of delayed transitions is found at its entry. -/
theorem mem_delayDefects_iff {entries : List (String × TransitionDef)} {seen : List Nat} :
    e ∈ l.delayDefects catalog n seen entries ↔ ∃ front x back, entries = front ++ x :: back ∧
      e ∈ l.entryDefects catalog n (front.foldl remember seen) x := by
  induction entries generalizing seen with
  | nil => simp [delayDefects]
  | cons x rest ih =>
    rw [delayDefects_cons, List.mem_append, ih]
    constructor
    · rintro (h | ⟨front, y, back, rfl, h⟩)
      · exact ⟨[], x, rest, rfl, h⟩
      · exact ⟨x :: front, y, back, rfl, h⟩
    · rintro ⟨front, y, back, heq, h⟩
      cases front with
      | nil =>
        cases heq
        exact .inl h
      | cons z front =>
        cases heq
        exact .inr ⟨front, y, back, rfl, h⟩

end Layout

namespace Definition

variable {d : Definition} {catalog : Catalog} {n : StateId} {place : List String} {s : StateDef}
  {e : Defect}

namespace Seat

variable (h : d.Seat n place s)

include h

theorem mem_transitionDefects {event : String} {t : TransitionDef} :
    e ∈ (Layout.of d).transitionDefects catalog n event t ↔
      (∃ target, t.target = some target ∧ ¬ d.Resolves place target ∧
        e = .unresolvedTarget (d.idOf place) event target) ∨
      ∃ name ∈ t.actions.items, catalog.hasAction name = false ∧
        e = .unknownAction (d.idOf place) name := by
  rw [Layout.mem_transitionDefects_iff, h.id]
  simp only [← Bool.not_eq_true, h.resolves_iff]
  rfl

theorem mem_initialDefects :
    e ∈ (Layout.of d).initialDefects n ↔
      (s.children ≠ [] ∧ s.body.initial = none ∧ e = .missingInitial (d.idOf place)) ∨
      (∃ key, s.children ≠ [] ∧ s.body.initial = some key ∧ (∀ c ∈ s.children, c.key ≠ key) ∧
        e = .unknownInitial (d.idOf place) key) ∨
      ∃ key, s.children = [] ∧ s.body.initial = some key ∧
        e = .initialOnLeaf (d.idOf place) key := by
  have hid : ((Layout.of d).slot n).id = d.idOf place := h.id
  simp only [Layout.initialDefects, h.body, hid, h.isEmpty_children, h.child?_isSome,
    ← StateDef.child?_eq_none]
  cases s.body.initial with
  | none => cases s.children <;> simp
  | some key =>
    cases s.children with
    | nil => simp
    | cons c rest => cases s.child? key <;> simp

/-- What is found of one delayed transition depends on whether its key counts. -/
theorem mem_entryDefects {front back : List (String × TransitionDef)}
    {x : String × TransitionDef} (hx : s.body.after.entries = front ++ x :: back) :
    e ∈ (Layout.of d).entryDefects catalog n (front.foldl Layout.remember []) x ↔
      ((∀ k, ¬ Denotes x.1 k) ∧ e = .invalidDelay (d.idOf place) x.1) ∨
      (∃ k, Denotes x.1 k ∧ ¬ s.body.Counts x.1 k ∧ e = .duplicateDelay (d.idOf place) k) ∨
      ∃ k, s.body.Counts x.1 k ∧
        e ∈ (Layout.of d).transitionDefects catalog n (Event.delayName k (d.idOf place)) x.2 := by
  have hid : ((Layout.of d).slot n).id = d.idOf place := h.id
  have hdenotes (k : Nat) : Denotes x.1 k ↔ readMillis? x.1 = some k := readMillis?_eq_some.symm
  -- The entry counts if the delays before it are others.
  have hcounts (k : Nat) : s.body.Counts x.1 k ↔
      readMillis? x.1 = some k ∧ k ∉ front.foldl Layout.remember [] := by
    rw [StateBody.counts_iff hx, Layout.mem_foldl_remember]
    simp
  simp only [hdenotes, hcounts, Layout.entryDefects, hid]
  cases readMillis? x.1 with
  | none => simp
  | some k =>
    by_cases hseen : k ∈ front.foldl Layout.remember [] <;> simp [hseen]

/-- **What is found of delayed transitions:** keys that stand for no number, keys that do not count,
and the defects of the transitions after delays that count. -/
theorem mem_delayDefects :
    e ∈ (Layout.of d).delayDefects catalog n [] s.body.after.entries ↔
      (∃ key ∈ s.body.after.keys, (∀ k, ¬ Denotes key k) ∧
        e = .invalidDelay (d.idOf place) key) ∨
      (∃ key ∈ s.body.after.keys, ∃ k, Denotes key k ∧ ¬ s.body.Counts key k ∧
        e = .duplicateDelay (d.idOf place) k) ∨
      ∃ key t k, (key, t) ∈ s.body.after.entries ∧ s.body.Counts key k ∧
        e ∈ (Layout.of d).transitionDefects catalog n (Event.delayName k (d.idOf place)) t := by
  rw [Layout.mem_delayDefects_iff]
  constructor
  · rintro ⟨front, x, back, hx, he⟩
    have hmem : x ∈ s.body.after.entries := hx ▸ by simp
    have hkey : x.1 ∈ s.body.after.keys := List.mem_map.mpr ⟨x, hmem, rfl⟩
    rcases (h.mem_entryDefects hx).mp he with he | he | ⟨k, hc, he⟩
    · exact .inl ⟨x.1, hkey, he⟩
    · exact .inr (.inl ⟨x.1, hkey, he⟩)
    · exact .inr (.inr ⟨x.1, x.2, k, hmem, hc, he⟩)
  · have hentry {key : String} (hkey : key ∈ s.body.after.keys) :
        ∃ t front back, s.body.after.entries = front ++ (key, t) :: back := by
      obtain ⟨⟨_, t⟩, hx, rfl⟩ := List.mem_map.mp hkey
      obtain ⟨front, back, hx⟩ := List.append_of_mem hx
      exact ⟨t, front, back, hx⟩
    rintro (⟨key, hkey, he⟩ | ⟨key, hkey, he⟩ | ⟨key, t, k, hx, hc, he⟩)
    · obtain ⟨t, front, back, hx⟩ := hentry hkey
      exact ⟨front, _, back, hx, (h.mem_entryDefects hx).mpr (.inl he)⟩
    · obtain ⟨t, front, back, hx⟩ := hentry hkey
      exact ⟨front, _, back, hx, (h.mem_entryDefects hx).mpr (.inr (.inl he))⟩
    · obtain ⟨front, back, hx⟩ := List.append_of_mem hx
      exact ⟨front, _, back, hx, (h.mem_entryDefects hx).mpr (.inr (.inr ⟨k, hc, he⟩))⟩

/-- What is found at a state is told. -/
theorem mem_defects (he : e ∈ (Layout.of d).stateDefects catalog n) : e ∈ d.defects catalog :=
  List.mem_append_right _ (List.mem_flatMap.mpr ⟨n, Layout.mem_states.mpr h.lt, he⟩)

end Seat

/-! ### What is told -/

variable (d) in
/-- The defect does not lie in a transition that is not looked at. -/
def InSight : Defect → Prop
  | .unresolvedTarget state event target => ∃ place s t, d.root.at? place = some s ∧
      state = d.idOf place ∧ s.body.Examines state event t ∧ t.target = some target ∧
      ¬ d.Resolves place target
  | .unknownAction state name => ∃ place s, d.root.at? place = some s ∧ state = d.idOf place ∧
      (name ∈ s.body.entry.items ∨ name ∈ s.body.exit.items ∨
        ∃ event t, s.body.Examines state event t ∧ name ∈ t.actions.items)
  | _ => True

/-- Where the delays of all states count nothing is out of sight. -/
theorem HasDefect.inSight (he : d.HasDefect catalog e)
    (hdelays : ∀ place s, d.root.at? place = some s →
      ∀ key ∈ s.body.after.keys, ∃ k, s.body.Counts key k) : d.InSight e := by
  have hkey {b : StateBody} {key : String} {t : TransitionDef} (hx : (key, t) ∈ b.after.entries) :
      key ∈ b.after.keys := List.mem_map.mpr ⟨_, hx, rfl⟩
  cases he with
  | @unresolvedTarget place s event target t hs ht htarget hresolves =>
    refine ⟨place, s, t, hs, rfl, ?_, htarget, hresolves⟩
    rcases ht with ht | ⟨key, k, hx, hk, hevent⟩
    · exact .inl ht
    · obtain ⟨k', hcounts⟩ := hdelays place s hs key (hkey hx)
      have hsame := (readMillis?_eq_some.mpr hk).symm.trans (readMillis?_eq_some.mpr hcounts.1)
      obtain rfl := Option.some.inj hsame
      exact .inr ⟨key, k, hx, hcounts, hevent⟩
  | @unknownAction place s name hs hname hunknown =>
    refine ⟨place, s, hs, rfl, ?_⟩
    simp only [StateBody.actionNames, List.mem_append, List.mem_flatMap] at hname
    rcases hname with ((hname | hname) | ⟨candidates, hcandidates, t, ht, hname⟩) |
      ⟨t, ht, hname⟩
    · exact .inl hname
    · exact .inr (.inl hname)
    · obtain ⟨x, hx, rfl⟩ := List.mem_map.mp hcandidates
      exact .inr (.inr ⟨x.1, t, .inl ⟨x.2, hx, ht⟩, hname⟩)
    · obtain ⟨x, hx, rfl⟩ := List.mem_map.mp ht
      obtain ⟨k, hcounts⟩ := hdelays place s hs x.1 (hkey hx)
      exact .inr (.inr ⟨_, x.2, .inr ⟨x.1, k, hx, hcounts, rfl⟩, hname⟩)
  | invalidMachineId | invalidStateKey | missingInitial | unknownInitial | initialOnLeaf
  | unknownService | invalidDelay | duplicateDelay => trivial

/-- What is found of a transition that is looked at is in sight. -/
theorem Seat.transition_inSight (h : d.Seat n place s) {event : String} {t : TransitionDef}
    (ht : s.body.Examines (d.idOf place) event t)
    (he : e ∈ (Layout.of d).transitionDefects catalog n event t) : d.InSight e := by
  rcases h.mem_transitionDefects.mp he with
    ⟨target, htarget, hresolves, rfl⟩ | ⟨name, hname, -, rfl⟩
  · exact ⟨place, s, t, h.found, rfl, ht, htarget, hresolves⟩
  · exact ⟨place, s, h.found, rfl, .inr (.inr ⟨event, t, ht, hname⟩)⟩

/-- **What is found at a state is in sight.** -/
theorem Seat.inSight (h : d.Seat n place s) (he : e ∈ (Layout.of d).stateDefects catalog n) :
    d.InSight e := by
  have hid : ((Layout.of d).slot n).id = d.idOf place := h.id
  simp only [Layout.stateDefects, h.body, List.mem_append, Layout.mem_actionDefects_iff, hid] at he
  rcases he with ((((he | ⟨name, hname, -, rfl⟩) | ⟨name, hname, -, rfl⟩) | he) | he) | he
  · rcases h.mem_initialDefects.mp he with ⟨-, -, rfl⟩ | ⟨key, -, -, -, rfl⟩ | ⟨key, -, -, rfl⟩
    all_goals trivial
  · exact ⟨place, s, h.found, rfl, .inl hname⟩
  · exact ⟨place, s, h.found, rfl, .inr (.inl hname)⟩
  · rw [Layout.eventDefects, h.body] at he
    obtain ⟨x, hx, he⟩ := List.mem_flatMap.mp he
    obtain ⟨t, ht, he⟩ := List.mem_flatMap.mp he
    exact h.transition_inSight (.inl ⟨x.2, hx, ht⟩) he
  · rcases h.mem_delayDefects.mp he with
      ⟨key, -, -, rfl⟩ | ⟨key, -, k, -, -, rfl⟩ | ⟨key, t, k, hx, hcounts, he⟩
    · trivial
    · trivial
    · exact h.transition_inSight (.inr ⟨key, k, hx, hcounts, rfl⟩) he
  · obtain ⟨i, -, rfl⟩ := List.mem_map.mp he
    trivial

theorem inSight_of_mem (he : e ∈ d.defects catalog) : d.InSight e := by
  simp only [defects, List.mem_append] at he
  rcases he with (he | he) | he
  · split at he
    · cases he
    · obtain rfl := List.mem_singleton.mp he
      trivial
  · obtain ⟨slot, -, hdefect⟩ := List.mem_filterMap.mp he
    cases hparent : slot.parent with
    | none => simp [hparent] at hdefect
    | some p =>
      simp only [hparent, Option.ite_none_left_eq_some, Option.some.injEq] at hdefect
      obtain ⟨-, rfl⟩ := hdefect
      trivial
  · obtain ⟨n, hn, he⟩ := List.mem_flatMap.mp he
    obtain ⟨place, s, -, h⟩ := exists_place (Layout.mem_states.mp hn)
    exact h.inSight he

/-- The defects of a transition that is looked at are found. -/
theorem Seat.mem_of_examines (h : d.Seat n place s) {event : String} {t : TransitionDef}
    (ht : s.body.Examines (d.idOf place) event t)
    (he : e ∈ (Layout.of d).transitionDefects catalog n event t) :
    e ∈ (Layout.of d).stateDefects catalog n := by
  simp only [Layout.stateDefects, h.body, List.mem_append]
  rcases ht with ⟨candidates, hx, ht⟩ | ⟨key, k, hx, hcounts, rfl⟩
  · refine .inl (.inl (.inr ?_))
    rw [Layout.eventDefects, h.body]
    exact List.mem_flatMap.mpr ⟨_, hx, List.mem_flatMap.mpr ⟨t, ht, he⟩⟩
  · exact .inl (.inr (h.mem_delayDefects.mpr (.inr (.inr ⟨key, t, k, hx, hcounts, he⟩))))

/-- Of two keys for one number one does not count. -/
theorem exists_not_counts {b : StateBody} {x y : String} {k : Nat} (hx : x ∈ b.after.keys)
    (hy : y ∈ b.after.keys) (hne : x ≠ y) (hk : Denotes x k) (hk' : Denotes y k) :
    ∃ key ∈ b.after.keys, Denotes key k ∧ ¬ b.Counts key k := by
  by_cases hcounts : b.Counts x k
  · exact ⟨y, hy, hk', fun h => hne (hcounts.unique h hx hy)⟩
  · exact ⟨x, hx, hk, hcounts⟩

theorem Seat.key_mem (h : d.Seat n place s) {c : StateDef} (hc : c ∈ s.children)
    (hkey : ¬ IsValidKey c.key) : .invalidStateKey (d.idOf place) c.key ∈ d.defects catalog := by
  have hfound : d.root.at? (place ++ [c.key]) = some c := by
    rw [StateDef.at?_append, h.found, Option.bind_some, StateDef.at?_singleton]
    exact (d.ordered.at? h.found).child? hc
  obtain ⟨m, hm⟩ := exists_seat hfound
  rcases hm.parent with ⟨hroot, -⟩ | ⟨p, above, key, up, habove, hparent, hup, -⟩
  · simp at hroot
  · obtain ⟨rfl, -⟩ := List.append_inj' habove rfl
    have hid : ((Layout.of d).slot p).id = d.idOf place := hup.id
    have hbad : ¬ IsValidKey c.body.key := hkey
    refine List.mem_append_left _ (List.mem_append_right _ ?_)
    refine List.mem_filterMap.mpr ⟨_, Layout.mem_slots hm.lt, ?_⟩
    simp only [hparent, hm.body, if_neg hbad, hid]
    rfl

theorem Seat.initial_mem (h : d.Seat n place s) (he : e ∈ (Layout.of d).initialDefects n) :
    e ∈ d.defects catalog := by
  refine h.mem_defects ?_
  simp only [Layout.stateDefects, List.mem_append]
  exact .inl (.inl (.inl (.inl (.inl he))))

theorem Seat.delay_mem (h : d.Seat n place s)
    (he : e ∈ (Layout.of d).delayDefects catalog n [] s.body.after.entries) :
    e ∈ d.defects catalog := by
  refine h.mem_defects ?_
  simp only [Layout.stateDefects, h.body, List.mem_append]
  exact .inl (.inr he)

theorem Seat.action_mem (h : d.Seat n place s) {name : String}
    (hname : name ∈ s.body.entry.items ∨ name ∈ s.body.exit.items ∨
      ∃ event t, s.body.Examines (d.idOf place) event t ∧ name ∈ t.actions.items)
    (hunknown : catalog.hasAction name = false) :
    .unknownAction (d.idOf place) name ∈ d.defects catalog := by
  have hid : ((Layout.of d).slot n).id = d.idOf place := h.id
  refine h.mem_defects ?_
  rcases hname with hname | hname | ⟨event, t, ht, hname⟩
  · simp only [Layout.stateDefects, h.body, List.mem_append, Layout.mem_actionDefects_iff, hid]
    exact .inl (.inl (.inl (.inl (.inr ⟨name, hname, hunknown, rfl⟩))))
  · simp only [Layout.stateDefects, h.body, List.mem_append, Layout.mem_actionDefects_iff, hid]
    exact .inl (.inl (.inl (.inr ⟨name, hname, hunknown, rfl⟩)))
  · exact h.mem_of_examines ht (h.mem_transitionDefects.mpr (.inr ⟨name, hname, hunknown, rfl⟩))

theorem Seat.service_mem (h : d.Seat n place s) {name : String}
    (hname : name ∈ s.body.serviceNames) (hunknown : catalog.hasService name = false) :
    .unknownService (d.idOf place) name ∈ d.defects catalog := by
  have hid : ((Layout.of d).slot n).id = d.idOf place := h.id
  obtain ⟨i, hi, rfl⟩ := List.mem_map.mp hname
  refine h.mem_defects (List.mem_append_right _ ?_)
  rw [Layout.serviceDefects, h.body, hid]
  exact List.mem_map.mpr ⟨i, List.mem_filter.mpr ⟨hi, by simp [hunknown]⟩, rfl⟩

/-- **All defects in sight are told.** -/
theorem HasDefect.mem (he : d.HasDefect catalog e) (hsight : d.InSight e) :
    e ∈ d.defects catalog := by
  cases he with
  | invalidMachineId hkey => simp [defects, hkey]
  | invalidStateKey hs hc hkey =>
    obtain ⟨n, h⟩ := exists_seat hs
    exact h.key_mem hc hkey
  | missingInitial hs hchildren hnone =>
    obtain ⟨n, h⟩ := exists_seat hs
    exact h.initial_mem (h.mem_initialDefects.mpr (.inl ⟨hchildren, hnone, rfl⟩))
  | unknownInitial hs hchildren hinitial hunknown =>
    obtain ⟨n, h⟩ := exists_seat hs
    exact h.initial_mem
      (h.mem_initialDefects.mpr (.inr (.inl ⟨_, hchildren, hinitial, hunknown, rfl⟩)))
  | initialOnLeaf hs hleaf hinitial =>
    obtain ⟨n, h⟩ := exists_seat hs
    exact h.initial_mem (h.mem_initialDefects.mpr (.inr (.inr ⟨_, hleaf, hinitial, rfl⟩)))
  | unresolvedTarget =>
    obtain ⟨place, s, t, hs, hid, ht, htarget, hresolves⟩ := hsight
    obtain ⟨n, h⟩ := exists_seat hs
    rw [hid] at ht ⊢
    exact h.mem_defects (h.mem_of_examines ht
      (h.mem_transitionDefects.mpr (.inl ⟨_, htarget, hresolves, rfl⟩)))
  | unknownAction _ _ hunknown =>
    obtain ⟨place, s, hs, hid, hname⟩ := hsight
    obtain ⟨n, h⟩ := exists_seat hs
    rw [hid] at hname ⊢
    exact h.action_mem hname hunknown
  | unknownService hs hname hunknown =>
    obtain ⟨n, h⟩ := exists_seat hs
    exact h.service_mem hname hunknown
  | invalidDelay hs hkey hinvalid =>
    obtain ⟨n, h⟩ := exists_seat hs
    exact h.delay_mem (h.mem_delayDefects.mpr (.inl ⟨_, hkey, hinvalid, rfl⟩))
  | duplicateDelay hs ha hb hne hn hn' =>
    obtain ⟨n, h⟩ := exists_seat hs
    obtain ⟨key, hkey, hk, hnot⟩ := exists_not_counts ha hb hne hn hn'
    exact h.delay_mem (h.mem_delayDefects.mpr (.inr (.inl ⟨key, hkey, _, hk, hnot, rfl⟩)))

end Definition

/-- **A refused definition is told all its defects in sight, and no others.** Only the targets and
the actions of transitions after delays that are at fault are out of sight: where every delay
counts, the list has all defects. -/
theorem StateTree.mem_error_iff {d : Definition} {catalog : Catalog} {defects : List Defect}
    (h : StateTree.build d catalog = .error defects) :
    (∀ e, e ∈ defects ↔ d.HasDefect catalog e ∧ d.InSight e) ∧
    ((∀ place s, d.root.at? place = some s →
        ∀ key ∈ s.body.after.keys, ∃ n, s.body.Counts key n) →
      ∀ e, e ∈ defects ↔ d.HasDefect catalog e) := by
  have hmem : defects = d.defects catalog := by
    unfold StateTree.build at h
    split at h
    · cases h
    · cases h
      rfl
  have hiff (e : Defect) : e ∈ defects ↔ d.HasDefect catalog e ∧ d.InSight e := by
    rw [hmem]
    refine ⟨fun he => ?_, fun he => he.1.mem he.2⟩
    exact ⟨Definition.hasDefect_of_mem he, Definition.inSight_of_mem he⟩
  refine ⟨hiff, fun hdelays e => (hiff e).trans ?_⟩
  exact and_iff_left_of_imp fun he => he.inSight hdelays

/-- A state that whistles after the given delay. -/
def hot (delay : String) : StateDef :=
  ⟨{ (default : StateBody) with
    key := "hot", after := .ofList [(delay, TransitionDef.targetless.action "whistle")] }, []⟩

def kettle (delay : String) : Definition :=
  .ofRoot ⟨{ (default : StateBody) with key := "kettle", initial := some "hot" }, [hot delay]⟩

/-- There are no actions and no services. -/
def noHost : Catalog := ⟨fun _ => false, fun _ => false⟩

theorem kettle_all_told :
    StateTree.build (kettle "500") noHost = .error [.unknownAction "kettle.hot" "whistle"] ∧
    ∀ e, e ∈ [.unknownAction "kettle.hot" "whistle"] ↔ (kettle "500").HasDefect noHost e := by
  have hbuild : StateTree.build (kettle "500") noHost =
      .error [.unknownAction "kettle.hot" "whistle"] := rfl
  refine ⟨hbuild, (StateTree.mem_error_iff hbuild).2 ?_⟩
  intro place s hs key hkey
  have hplaces : (kettle "500").root.places [] =
      [([], (kettle "500").root), (["hot"], hot "500")] := rfl
  obtain ⟨n, h⟩ := Definition.exists_seat hs
  have hplace := List.mem_of_getElem? h.places_eq
  rw [hplaces] at hplace
  rcases List.mem_cons.mp hplace with heq | hplace
  · cases heq
    cases hkey
  · cases List.mem_singleton.mp hplace
    have hkeys : (hot "500").body.after.keys = ["500"] := rfl
    rw [hkeys, List.mem_singleton] at hkey
    subst hkey
    refine ⟨500, readMillis?_eq_some.mp rfl, fun other hother _ => ?_⟩
    rw [hkeys, List.mem_singleton] at hother
    exact hother ▸ String.le_refl _

/-- **Not all defects are told at once:** that there is no such action is told only when the delay
has been put right. -/
theorem kettle_not_all_told :
    StateTree.build (kettle "soon") noHost = .error [.invalidDelay "kettle.hot" "soon"] ∧
    (kettle "soon").HasDefect noHost (.unknownAction "kettle.hot" "whistle") ∧
    StateTree.build (kettle "500") noHost =
      .error [.unknownAction "kettle.hot" "whistle"] := by
  have hfound : (kettle "soon").root.at? ["hot"] = some (hot "soon") := rfl
  exact ⟨rfl, .unknownAction hfound (by decide) rfl, rfl⟩

end Statechart
