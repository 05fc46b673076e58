import Statechart.Tree.Hierarchy

/-!
# Configurations

The active states of a machine: a path from the root down to a leaf, or nothing before the start
and after the stop.
-/

namespace Statechart

/-- The active states, root first. -/
structure Configuration where
  states : List StateId
  deriving DecidableEq

namespace Configuration

/-- No state is active. -/
def empty : Configuration := ⟨[]⟩

/-- The configuration in which a machine starts. -/
def initial (t : StateTree) : Configuration := ⟨t.initialPath t.root⟩

def leaf? (c : Configuration) : Option StateId := c.states.getLast?

def contains (c : Configuration) (s : StateId) : Bool := c.states.contains s

def isEmpty (c : Configuration) : Bool := c.states.isEmpty

/-- The active states, leaf first. -/
def innermostFirst (c : Configuration) : List StateId := c.states.reverse

/-- The keys of the active states below the root, outermost first. -/
def value (c : Configuration) (t : StateTree) : List String :=
  (c.states.drop 1).map fun s => (t.node s).key

/-- The ids of the active states, root first. -/
def ids (c : Configuration) (t : StateTree) : List String := c.states.map fun s => (t.node s).id

/-- The ids of the active states below the root. -/
def idsBelowRoot (c : Configuration) (t : StateTree) : List String := (c.ids t).drop 1

end Configuration

end Statechart
