import Statechart.Definition.Basic
import Statechart.Text.Dotted
import Statechart.Tree.Basic

/-!
# The layout of a tree

The states of a definition in pre-order, with their numbers, before anything they refer to is
looked up. Targets of transitions are resolved against the layout.
-/

namespace Statechart

/-- A state at its place. -/
structure Slot where
  body : StateBody
  id : String
  parent : Option StateId
  depth : Nat
  children : List StateId

instance : Inhabited Slot := ⟨⟨default, "", none, 0, []⟩⟩

namespace StateDef

/-- The numbers of siblings, the first of which has the number `next`. -/
def numbers (next : Nat) : List StateDef → List StateId
  | [] => []
  | d :: rest => ⟨next⟩ :: numbers (next + d.size) rest

mutual

/-- The states of a definition in pre-order, the first of which has the number `index`. -/
def slots (id : String) (parent : Option StateId) (depth index : Nat) : StateDef → List Slot
  | ⟨body, children⟩ =>
    ⟨body, id, parent, depth, numbers (index + 1) children⟩ ::
      slotsAll id ⟨index⟩ (depth + 1) (index + 1) children

def slotsAll (id : String) (parent : StateId) (depth next : Nat) : List StateDef → List Slot
  | [] => []
  | d :: rest =>
    d.slots (id ++ "." ++ d.key) (some parent) depth next ++
      slotsAll id parent depth (next + d.size) rest

end

end StateDef

/-- The states of a definition at their places. -/
structure Layout where
  slots : Array Slot

namespace Layout

/-- The layout of a definition. -/
def of (d : Definition) : Layout := ⟨(d.root.slots d.id none 0 0).toArray⟩

def slot (l : Layout) (s : StateId) : Slot := (l.slots[s.index]?).getD default

def states (l : Layout) : List StateId := (List.range l.slots.size).map StateId.mk

def root (_ : Layout) : StateId := ⟨0⟩

/-- The child of `s` with the given key. -/
def child? (l : Layout) (s : StateId) (key : String) : Option StateId :=
  (l.slot s).children.find? fun c => (l.slot c).body.key == key

/-- The state that is reached from `s` by the given keys. -/
def descend? (l : Layout) (s : StateId) : List String → Option StateId
  | [] => some s
  | key :: rest => (l.child? s key).bind fun c => l.descend? c rest

/-- The state that a target names when it is declared in `s`.

A target that starts with `#` names the machine and then the keys from the root down. One that
starts with a dot names keys from `s` down. Any other names keys from the parent of `s` down, or
from the root if `s` is the root. -/
def resolve? (l : Layout) (s : StateId) (target : String) : Option StateId :=
  match target.toList with
  | '#' :: rest =>
    match Text.split (String.ofList rest) with
    | [] => none
    | machine :: keys =>
      if machine = (l.slot l.root).body.key then l.descend? l.root keys else none
  | '.' :: rest => l.descend? s (Text.split (String.ofList rest))
  | _ => l.descend? ((l.slot s).parent.getD l.root) (Text.split target)

end Layout

end Statechart
