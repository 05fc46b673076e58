import Statechart.Dict
import Statechart.OneOrMany

/-!
# Definitions of machines

A machine is defined by its root state. Every state has a key, which is unique among its
siblings; the key of the root is the id of the machine.

`StateDef.Ordered` says that the children of every state are in ascending order of their keys.
`StateDef.arrange` brings any definition into that order (`arrange_ordered`), and a `Definition`
has it.
-/

namespace Statechart

/-- A transition as it is declared: where it leads, if anywhere, and what it does. -/
structure TransitionDef where
  target : Option String
  actions : OneOrMany String
  description : Option String
  deriving DecidableEq

namespace TransitionDef

instance : Inhabited TransitionDef := ⟨⟨none, .many [], none⟩⟩

instance : BEq TransitionDef :=
  ⟨fun a b => a.target == b.target && a.actions == b.actions && a.description == b.description⟩

/-- A transition that only runs actions. -/
def targetless : TransitionDef := ⟨none, .many [], none⟩

/-- A transition to `target` without actions. -/
def goto (target : String) : TransitionDef := ⟨some target, .many [], none⟩

/-- Add an action after the ones already there. -/
def action (t : TransitionDef) (name : String) : TransitionDef :=
  { t with actions := t.actions.push name }

def describe (t : TransitionDef) (text : String) : TransitionDef :=
  { t with description := some text }

end TransitionDef

/-- A service that runs as long as a state is active. -/
structure InvokeDef where
  service : String
  id : Option String
  deriving DecidableEq

instance : Inhabited InvokeDef := ⟨⟨"", none⟩⟩

/-- The id of an invocation is the name of its service unless it has one of its own. -/
def InvokeDef.effectiveId (d : InvokeDef) : String := d.id.getD d.service

/-- What a state declares apart from its children. -/
structure StateBody where
  key : String
  initial : Option String
  entry : OneOrMany String
  exit : OneOrMany String
  /-- the candidate transitions of each event, the first one coming first -/
  on : Dict (OneOrMany TransitionDef)
  /-- the transitions taken after a time in the state, by the milliseconds as they are written -/
  after : Dict TransitionDef
  invoke : OneOrMany InvokeDef
  description : Option String

namespace StateBody

instance : Inhabited StateBody :=
  ⟨⟨"", none, .many [], .many [], .empty, .empty, .many [], none⟩⟩

instance : BEq StateBody :=
  ⟨fun a b => a.key == b.key && a.initial == b.initial && a.entry == b.entry && a.exit == b.exit &&
    a.on == b.on && a.after == b.after && a.invoke == b.invoke && a.description == b.description⟩

end StateBody

/-- The definition of a state: what it declares itself, and its children. -/
inductive StateDef where
  | mk (body : StateBody) (children : List StateDef)

namespace StateDef

instance : Inhabited StateDef := ⟨⟨default, []⟩⟩

def body : StateDef → StateBody
  | ⟨body, _⟩ => body

def children : StateDef → List StateDef
  | ⟨_, children⟩ => children

def key (d : StateDef) : String := d.body.key

def isLeaf (d : StateDef) : Bool := d.children.isEmpty

/-- The child with the given key. -/
def child? (d : StateDef) (key : String) : Option StateDef := Keyed.find? StateDef.key key d.children

mutual

/-- Alike in everything but the spelling of single items. -/
def same : StateDef → StateDef → Bool
  | ⟨a, as⟩, ⟨b, bs⟩ => a == b && sameAll as bs

def sameAll : List StateDef → List StateDef → Bool
  | [], [] => true
  | a :: as, b :: bs => a.same b && sameAll as bs
  | _, _ => false

end

instance : BEq StateDef := ⟨same⟩

mutual

/-- The number of states in the definition. -/
def size : StateDef → Nat
  | ⟨_, children⟩ => sizeAll children + 1

def sizeAll : List StateDef → Nat
  | [] => 0
  | d :: rest => d.size + sizeAll rest

end

mutual

/-- The children of every state are in ascending order of their keys. -/
def Ordered : StateDef → Prop
  | ⟨_, children⟩ => Keyed.Ascending key children ∧ OrderedAll children

def OrderedAll : List StateDef → Prop
  | [] => True
  | d :: rest => d.Ordered ∧ OrderedAll rest

end

mutual

/-- The children of every state brought into order; of two with one key the later one stays. -/
def arrange : StateDef → StateDef
  | ⟨body, children⟩ => ⟨body, Keyed.ofList key (arrangeAll children)⟩

def arrangeAll : List StateDef → List StateDef
  | [] => []
  | d :: rest => d.arrange :: arrangeAll rest

end

theorem orderedAll_iff {l : List StateDef} : OrderedAll l ↔ ∀ d ∈ l, d.Ordered := by
  induction l with
  | nil => simp [OrderedAll]
  | cons d rest ih => simp [OrderedAll, ih]

mutual

theorem arrange_ordered : ∀ d : StateDef, d.arrange.Ordered
  | ⟨_, children⟩ => by
    refine ⟨Keyed.ascending_ofList _, orderedAll_iff.mpr fun d h => ?_⟩
    exact arrangeAll_ordered children d (Keyed.mem_of_mem_ofList h)

theorem arrangeAll_ordered : ∀ l : List StateDef, ∀ d ∈ arrangeAll l, d.Ordered
  | [], _, h => by simp [arrangeAll] at h
  | d :: rest, e, h => by
    rcases List.mem_cons.mp h with rfl | h
    · exact arrange_ordered d
    · exact arrangeAll_ordered rest e h

end

end StateDef

/-- The definition of a machine. -/
structure Definition where
  root : StateDef
  ordered : root.Ordered

namespace Definition

/-- The definition with the given root, its states brought into order. -/
def ofRoot (root : StateDef) : Definition := ⟨root.arrange, root.arrange_ordered⟩

/-- The id of the machine. -/
def id (d : Definition) : String := d.root.key

instance : BEq Definition := ⟨fun a b => a.root == b.root⟩

end Definition

end Statechart
