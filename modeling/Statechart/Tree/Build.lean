import Statechart.Tree.Defects

/-!
# Building a tree

A definition without defects becomes a tree: each state of the layout becomes a node, with
everything it refers to replaced by numbers.
-/

namespace Statechart

/-- Put a delay at its place in ascending order of length. -/
def Delay.insert (d : Delay) : List Delay → List Delay
  | [] => [d]
  | e :: rest => if d.millis ≤ e.millis then d :: e :: rest else e :: insert d rest

/-- Delays in ascending order of length. -/
def Delay.sort (delays : List Delay) : List Delay := delays.foldr Delay.insert []

namespace StateBody

/-- The actions a state refers to, in the order of its fields. -/
def actionNames (b : StateBody) : List String :=
  b.entry.items ++ b.exit.items ++
    b.on.values.flatMap (fun candidates => candidates.items.flatMap fun t => t.actions.items) ++
    b.after.values.flatMap fun t => t.actions.items

/-- The services a state refers to. -/
def serviceNames (b : StateBody) : List String := b.invoke.items.map InvokeDef.service

end StateBody

namespace Layout

variable (l : Layout)

/-- The names of the actions in the order of first use. -/
def actions : List String := (l.slots.toList.flatMap fun s => s.body.actionNames).eraseDups

/-- The names of the services in the order of first use. -/
def services : List String := (l.slots.toList.flatMap fun s => s.body.serviceNames).eraseDups

/-- The numbers of actions by their names. -/
def actionIds (actions names : List String) : List ActionId :=
  names.map fun name => ⟨actions.idxOf name⟩

variable (actions services : List String)

/-- A transition that `s` declares. -/
def transition (s : StateId) (t : TransitionDef) : Transition where
  source := s
  target := t.target.bind (l.resolve? s)
  actions := actionIds actions t.actions.items
  description := t.description

/-- The delayed transitions of `s`. -/
def delays (s : StateId) : List Delay :=
  Delay.sort <| (l.slot s).body.after.entries.filterMap fun e =>
    (readMillis? e.1).map fun millis =>
      ⟨millis, Event.delayName millis (l.slot s).id, l.transition actions s e.2⟩

/-- The node of `s`. -/
def node (s : StateId) : Node :=
  let slot := l.slot s
  { key := slot.body.key
    id := slot.id
    parent := slot.parent
    children := slot.children
    initial := slot.body.initial.bind (l.child? s)
    depth := slot.depth
    entry := actionIds actions slot.body.entry.items
    exit := actionIds actions slot.body.exit.items
    on := slot.body.on.mapValues fun _ candidates => candidates.items.map (l.transition actions s)
    after := l.delays actions s
    invoke := slot.body.invoke.items.map fun i => ⟨i.effectiveId, ⟨services.idxOf i.service⟩⟩
    description := slot.body.description }

/-- The tree of the layout. -/
def toTree : StateTree where
  nodes := (l.states.map (l.node l.actions l.services)).toArray
  actions := l.actions
  services := l.services

end Layout

/-- The tree of a definition, or all defects that were found. -/
def StateTree.build (d : Definition) (catalog : Catalog) : Except (List Defect) StateTree :=
  match d.defects catalog with
  | [] => .ok (Layout.of d).toTree
  | defects => .error defects

end Statechart
