import Mathlib.Data.List.Count

/-!
# Brackets

Words of brackets that are opened and closed around things. A word is read with a stack: what is
opened is pushed, and only what lies on top can be closed (`Bracket.Nests`). If things can be told
apart, the stack can be computed (`Bracket.replay`).
-/

namespace Statechart

/-- A bracket around a thing. -/
inductive Bracket (α : Type) where
  | opens (a : α)
  | closes (a : α)
  deriving DecidableEq

namespace Bracket

variable {α : Type} {stack stack' : List α} {w x : List (Bracket α)}

/-- From one stack of what is open a word leads to another. -/
inductive Nests : List α → List (Bracket α) → List α → Prop
  | done (stack : List α) : Nests stack [] stack
  | opens {a : α} {stack stack' : List α} {w : List (Bracket α)} :
      Nests (a :: stack) w stack' → Nests stack (opens a :: w) stack'
  | closes {a : α} {stack stack' : List α} {w : List (Bracket α)} :
      Nests stack w stack' → Nests (a :: stack) (closes a :: w) stack'

theorem nests_opens (stack l : List α) : Nests stack (l.map opens) (l.reverse ++ stack) := by
  induction l generalizing stack with
  | nil => exact .done stack
  | cons a rest ih =>
    rw [List.reverse_cons, List.append_assoc]
    exact .opens (ih (a :: stack))

theorem nests_closes (stack l : List α) : Nests (l ++ stack) (l.map closes) stack := by
  induction l with
  | nil => exact .done stack
  | cons a rest ih => exact .closes ih

namespace Nests

theorem append {stack'' : List α} (h : Nests stack w stack') (h' : Nests stack' x stack'') :
    Nests stack (w ++ x) stack'' := by
  induction h with
  | done => exact h'
  | opens _ ih => exact .opens (ih h')
  | closes _ ih => exact .closes (ih h')

theorem exists_of_append (h : Nests stack (w ++ x) stack') :
    ∃ there, Nests stack w there ∧ Nests there x stack' := by
  induction w generalizing stack with
  | nil => exact ⟨stack, .done stack, h⟩
  | cons b rest ih =>
    cases h with
    | opens h =>
      obtain ⟨there, hrest, hx⟩ := ih h
      exact ⟨there, .opens hrest, hx⟩
    | closes h =>
      obtain ⟨there, hrest, hx⟩ := ih h
      exact ⟨there, .closes hrest, hx⟩

/-- **What is closed lies on top.** -/
theorem top_of_closes {before after : List (Bracket α)} {a : α}
    (h : Nests stack (before ++ .closes a :: after) stack') :
    ∃ others, Nests stack before (a :: others) := by
  obtain ⟨there, hbefore, hafter⟩ := h.exists_of_append
  cases hafter with
  | closes => exact ⟨_, hbefore⟩

end Nests

/-! ### Balance -/

/-- The things that are opened, in order. -/
def opened (w : List (Bracket α)) : List α :=
  w.filterMap fun
    | opens a => some a
    | closes _ => none

/-- The things that are closed, in order. -/
def closed (w : List (Bracket α)) : List α :=
  w.filterMap fun
    | opens _ => none
    | closes a => some a

theorem opened_append (w x : List (Bracket α)) : opened (w ++ x) = opened w ++ opened x :=
  List.filterMap_append

theorem opened_opens (l : List α) : opened (l.map opens) = l := by
  rw [opened, List.filterMap_map]
  exact List.filterMap_some

theorem opened_closes (l : List α) : opened (l.map closes) = [] := by
  rw [opened, List.filterMap_map]
  exact List.filterMap_eq_nil_iff.mpr fun _ _ => rfl

theorem mem_opened {a : α} : a ∈ opened w ↔ opens a ∈ w := by
  rw [opened, List.mem_filterMap]
  constructor
  · rintro ⟨b, hb, heq⟩
    cases b with
    | opens _ => exact Option.some.inj heq ▸ hb
    | closes _ => exact nomatch heq
  · exact fun h => ⟨_, h, rfl⟩

/-- **Brackets balance** but for what is open. -/
theorem Nests.perm (h : Nests stack w stack') :
    (stack ++ opened w).Perm (stack' ++ closed w) := by
  induction h with
  | done => exact .refl _
  | opens _ ih => exact List.perm_middle.trans ih
  | closes _ ih => exact (ih.cons _).trans List.perm_middle.symm

/-! ### Things that can be told apart -/

variable [DecidableEq α]

/-- What is open after the brackets, the latest first, given what was open before; none if another
than the latest one is closed. -/
def replay : List α → List (Bracket α) → Option (List α)
  | stack, [] => some stack
  | stack, opens a :: rest => replay (a :: stack) rest
  | [], closes _ :: _ => none
  | top :: stack, closes a :: rest => if top = a then replay stack rest else none

theorem replay_eq_some_iff : replay stack w = some stack' ↔ Nests stack w stack' := by
  constructor
  · intro h
    induction w generalizing stack with
    | nil =>
      cases h
      exact .done _
    | cons b rest ih =>
      cases b with
      | opens a => exact .opens (ih h)
      | closes a =>
        cases stack with
        | nil => exact nomatch h
        | cons top stack =>
          rw [replay] at h
          split at h
          case isTrue htop => exact htop ▸ .closes (ih h)
          case isFalse => exact nomatch h
  · intro h
    induction h with
    | done => rfl
    | opens _ ih => exact ih
    | closes _ ih => rw [replay, if_pos rfl, ih]

theorem count_opened (w : List (Bracket α)) (a : α) : (opened w).count a = w.count (opens a) := by
  rw [opened, List.count_filterMap, List.count]
  apply List.countP_congr
  intro b _
  cases b <;> simp

theorem count_closed (w : List (Bracket α)) (a : α) : (closed w).count a = w.count (closes a) := by
  rw [closed, List.count_filterMap, List.count]
  apply List.countP_congr
  intro b _
  cases b <;> simp

theorem Nests.count (h : Nests stack w stack') (a : α) :
    stack.count a + w.count (.opens a) = stack'.count a + w.count (.closes a) := by
  have hcount := h.perm.count_eq a
  rwa [List.count_append, List.count_append, count_opened, count_closed] at hcount

end Bracket

end Statechart
