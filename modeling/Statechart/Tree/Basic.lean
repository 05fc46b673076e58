import Statechart.Dict

/-!
# State trees

The states of a machine, numbered in pre-order: a state comes before its children, and the
children come one after another in ascending order of their keys. Parents, children, initial
children and targets of transitions are given by number.
-/

namespace Statechart

/-- The number of a state in its tree. -/
structure StateId where
  index : Nat
  deriving DecidableEq

/-- The number of an action among those a tree refers to. -/
structure ActionId where
  index : Nat
  deriving DecidableEq

/-- The number of a service among those a tree refers to. -/
structure ServiceId where
  index : Nat
  deriving DecidableEq

/-- How a state is named in a journal. -/
def StateId.label (s : StateId) : String := "#" ++ toString s.index

instance : Inhabited StateId := ⟨⟨0⟩⟩

/-- A transition of a tree. Without a target it only runs its actions. -/
structure Transition where
  /-- the state that declares it -/
  source : StateId
  target : Option StateId
  actions : List ActionId
  description : Option String
  deriving DecidableEq

/-- A transition that is taken once its state has been active for some time. -/
structure Delay where
  millis : Nat
  /-- the name of the event that stands for the elapsed delay -/
  event : String
  transition : Transition
  deriving DecidableEq

/-- A service that runs as long as its state is active. -/
structure Invoke where
  id : String
  service : ServiceId
  deriving DecidableEq

/-- One state of a tree. -/
structure Node where
  key : String
  /-- the keys from the root down to this state, with dots between them -/
  id : String
  parent : Option StateId
  children : List StateId
  initial : Option StateId
  /-- how many states lie above -/
  depth : Nat
  entry : List ActionId
  exit : List ActionId
  on : Dict (List Transition)
  /-- in ascending order of their lengths -/
  after : List Delay
  invoke : List Invoke
  description : Option String

namespace Node

instance : Inhabited Node :=
  ⟨⟨"", "", none, [], none, 0, [], [], .empty, [], [], none⟩⟩

def isLeaf (n : Node) : Bool := n.children.isEmpty

def isCompound (n : Node) : Bool := !n.children.isEmpty

/-- The candidates for an event, the first one coming first. -/
def transitions (n : Node) (event : String) : List Transition := (n.on.find? event).getD []

/-- The events that the state declares transitions for. -/
def events (n : Node) : List String := n.on.keys

end Node

/-- The states of a machine, and the names of the actions and services they refer to, in the order
of first use. -/
structure StateTree where
  nodes : Array Node
  actions : List String
  services : List String

namespace StateTree

def root (_ : StateTree) : StateId := ⟨0⟩

/-- A state, if the tree has one of that number. -/
def node? (t : StateTree) (s : StateId) : Option Node := t.nodes[s.index]?

/-- A state of the tree. -/
def node (t : StateTree) (s : StateId) : Node := (t.node? s).getD default

def size (t : StateTree) : Nat := t.nodes.size

/-- The id of the machine. -/
def id (t : StateTree) : String := (t.node t.root).key

/-- The states in pre-order. -/
def states (t : StateTree) : List StateId := (List.range t.size).map StateId.mk

/-- The state with the given id. -/
def find? (t : StateTree) (id : String) : Option StateId :=
  (t.nodes.toList.findIdx? fun n => n.id == id).map StateId.mk

def hasDelays (t : StateTree) : Bool := t.nodes.any fun n => !n.after.isEmpty

def actionName (t : StateTree) (a : ActionId) : String := (t.actions[a.index]?).getD ""

def serviceName (t : StateTree) (s : ServiceId) : String := (t.services[s.index]?).getD ""

end StateTree

end Statechart
