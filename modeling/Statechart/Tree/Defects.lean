import Statechart.Defect
import Statechart.Event
import Statechart.Text.Blank
import Statechart.Tree.Layout

/-!
# Checking a definition

`Definition.defects` lists what is wrong with a definition, given the names of the actions and
services there are: first the invalid keys, then, state by state in pre-order, the initial child,
the actions on entry and exit, the transitions by event, the delayed transitions and the
invocations.
-/

namespace Statechart

/-- The actions and services that a definition may refer to. -/
structure Catalog where
  hasAction : String → Bool
  hasService : String → Bool

/-- A catalog with every name. -/
def Catalog.everything : Catalog := ⟨fun _ => true, fun _ => true⟩

/-- A key is not empty and has neither a dot nor a `#` in it. -/
def IsValidKey (key : String) : Prop := key ≠ "" ∧ '.' ∉ key.toList ∧ '#' ∉ key.toList

instance (key : String) : Decidable (IsValidKey key) := inferInstanceAs (Decidable (_ ∧ _))

/-- The digits of a number without a sign. -/
def readDigits? (text : List Char) : Option Nat :=
  if text ≠ [] ∧ text.all (fun c => '0' ≤ c && c ≤ '9') then
    some (text.foldl (fun n c => 10 * n + (c.toNat - '0'.toNat)) 0)
  else none

/-- The milliseconds that the key of a delay names: digits, with a plus sign and blanks around
them if one likes. They have to fit into 64 bits. -/
def readMillis? (key : String) : Option Nat :=
  let digits :=
    match Text.trim key.toList with
    | '+' :: rest => rest
    | text => text
  match readDigits? digits with
  | some n => if n ≤ Number.greatestWord then some n else none
  | none => none

namespace Layout

variable (l : Layout) (catalog : Catalog)

/-- The defects of the keys below the root. -/
def keyDefects : List Defect :=
  l.slots.toList.filterMap fun slot =>
    match slot.parent with
    | none => none
    | some p =>
      if IsValidKey slot.body.key then none
      else some (.invalidStateKey (l.slot p).id slot.body.key)

/-- The defects of the initial child of `s`. -/
def initialDefects (s : StateId) : List Defect :=
  let slot := l.slot s
  match slot.body.initial, slot.children.isEmpty with
  | none, true => []
  | some initial, true => [.initialOnLeaf slot.id initial]
  | none, false => [.missingInitial slot.id]
  | some initial, false =>
    if (l.child? s initial).isSome then [] else [.unknownInitial slot.id initial]

/-- The actions of `s` that there are none of. -/
def actionDefects (s : StateId) (names : List String) : List Defect :=
  (names.filter fun name => !catalog.hasAction name).map fun name =>
    .unknownAction (l.slot s).id name

/-- The defects of one transition of `s`. -/
def transitionDefects (s : StateId) (event : String) (t : TransitionDef) : List Defect :=
  (match t.target with
    | none => []
    | some target =>
      if (l.resolve? s target).isSome then [] else [.unresolvedTarget (l.slot s).id event target])
  ++ l.actionDefects catalog s t.actions.items

/-- The defects of the transitions of `s` by event. -/
def eventDefects (s : StateId) : List Defect :=
  (l.slot s).body.on.entries.flatMap fun e =>
    e.2.items.flatMap (l.transitionDefects catalog s e.1)

/-- The defects of delayed transitions of `s`, given the delays before them. Of a transition whose
delay is at fault nothing else is looked at. -/
def delayDefects (s : StateId) (seen : List Nat) : List (String × TransitionDef) → List Defect
  | [] => []
  | (key, t) :: rest =>
    let id := (l.slot s).id
    match readMillis? key with
    | none => .invalidDelay id key :: delayDefects s seen rest
    | some millis =>
      if millis ∈ seen then .duplicateDelay id millis :: delayDefects s seen rest
      else
        l.transitionDefects catalog s (Event.delayName millis id) t ++
          delayDefects s (millis :: seen) rest

/-- The services invoked by `s` that there are none of. -/
def serviceDefects (s : StateId) : List Defect :=
  ((l.slot s).body.invoke.items.filter fun i => !catalog.hasService i.service).map fun i =>
    .unknownService (l.slot s).id i.service

/-- The defects of `s`. -/
def stateDefects (s : StateId) : List Defect :=
  l.initialDefects s ++
    l.actionDefects catalog s (l.slot s).body.entry.items ++
    l.actionDefects catalog s (l.slot s).body.exit.items ++
    l.eventDefects catalog s ++
    l.delayDefects catalog s [] (l.slot s).body.after.entries ++
    l.serviceDefects catalog s

end Layout

/-- What is wrong with a definition. -/
def Definition.defects (d : Definition) (catalog : Catalog) : List Defect :=
  let l := Layout.of d
  (if IsValidKey d.id then [] else [.invalidMachineId d.id]) ++
    l.keyDefects ++
    l.states.flatMap (l.stateDefects catalog)

end Statechart
