import Statechart.Tree.Basic

/-!
# Above and below

Walks through a tree along parents and initial children. Every walk is bounded by the number of
states, which is more than any walk in a tree that was built takes.
-/

namespace Statechart.StateTree

/-- The state above, or the root itself. -/
def parentOrSelf (t : StateTree) (s : StateId) : StateId := (t.node s).parent.getD s

/-- The walk from `s` upwards, of at most `fuel` further states. -/
def climb (t : StateTree) : Nat → StateId → List StateId
  | 0, s => [s]
  | fuel + 1, s =>
    match (t.node s).parent with
    | none => [s]
    | some p => s :: t.climb fuel p

/-- The state itself and the states above it, up to the root. -/
def ancestors (t : StateTree) (s : StateId) : List StateId := t.climb t.size s

/-- Whether `s` is `above` or lies below it. -/
def isDescendant (t : StateTree) (s above : StateId) : Bool := t.ancestors s |>.contains above

/-- The walk from `s` along initial children, of at most `fuel` further states. -/
def descend (t : StateTree) : Nat → StateId → List StateId
  | 0, s => [s]
  | fuel + 1, s =>
    match (t.node s).initial with
    | none => [s]
    | some c => s :: t.descend fuel c

/-- The state itself and the initial states below it, down to a leaf. -/
def initialPath (t : StateTree) (s : StateId) : List StateId := t.descend t.size s

/-- Walk up from `s` while it is deeper than `depth`. -/
def raiseTo (t : StateTree) (depth : Nat) : Nat → StateId → StateId
  | 0, s => s
  | fuel + 1, s =>
    if depth < (t.node s).depth then t.raiseTo depth fuel (t.parentOrSelf s) else s

/-- Walk up from `a` and `b` in step until they meet. -/
def meet (t : StateTree) : Nat → StateId → StateId → StateId
  | 0, a, _ => a
  | fuel + 1, a, b => if a = b then a else t.meet fuel (t.parentOrSelf a) (t.parentOrSelf b)

/-- The deepest state that both `a` and `b` are or lie below. -/
def lca (t : StateTree) (a b : StateId) : StateId :=
  let a := t.raiseTo (t.node b).depth t.size a
  let b := t.raiseTo (t.node a).depth t.size b
  t.meet t.size a b

/-- The state below which a transition from `source` to `target` leaves and enters states.

If one of the two lies above the other it is left and entered as well; the root never is. -/
def domain (t : StateTree) (source target : StateId) : StateId :=
  let common := t.lca source target
  if common = source ∨ common = target then t.parentOrSelf common else common

end Statechart.StateTree
