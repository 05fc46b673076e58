import Statechart.Defect
import Statechart.Definition.Basic
import Statechart.Number.Power
import Statechart.Time.Duration

/-!
# Building definitions

A `Draft` collects what is declared for a state, one declaration after another, in any order.
`Draft.build` turns it into a definition, or lists what cannot be part of one: siblings with the
same key, delays that are no whole number of milliseconds, and equal delays.
-/

namespace Statechart

/-- What a draft declares for a state itself, each list in the order of declaration. -/
structure DraftBody where
  key : String
  initial : Option String
  entry : List String
  exit : List String
  on : List (String × TransitionDef)
  after : List (Duration × TransitionDef)
  invoke : List InvokeDef
  description : Option String

/-- A state under construction: what it declares itself, and its children in the order they were
added. -/
inductive Draft where
  | mk (body : DraftBody) (children : List Draft)

namespace Draft

def body : Draft → DraftBody
  | ⟨body, _⟩ => body

def key (d : Draft) : String := d.body.key

/-! ### Declarations -/

/-- A state with nothing but its key. -/
def new (key : String) : Draft := ⟨⟨key, none, [], [], [], [], [], none⟩, []⟩

def updateBody (f : DraftBody → DraftBody) : Draft → Draft
  | ⟨body, children⟩ => ⟨f body, children⟩

/-- Name the initial child, in place of any named before. -/
def initial (d : Draft) (key : String) : Draft :=
  d.updateBody fun b => { b with initial := some key }

def entry (d : Draft) (action : String) : Draft :=
  d.updateBody fun b => { b with entry := b.entry ++ [action] }

def exit (d : Draft) (action : String) : Draft :=
  d.updateBody fun b => { b with exit := b.exit ++ [action] }

/-- Add a candidate for an event, after the candidates it already has. -/
def on (d : Draft) (event : String) (t : TransitionDef) : Draft :=
  d.updateBody fun b => { b with on := b.on ++ [(event, t)] }

def after (d : Draft) (delay : Duration) (t : TransitionDef) : Draft :=
  d.updateBody fun b => { b with after := b.after ++ [(delay, t)] }

def invoke (d : Draft) (service : String) : Draft :=
  d.updateBody fun b => { b with invoke := b.invoke ++ [⟨service, none⟩] }

/-- Describe the state, in place of any description before. -/
def describe (d : Draft) (text : String) : Draft :=
  d.updateBody fun b => { b with description := some text }

/-- Add a child. -/
def state : Draft → Draft → Draft
  | ⟨body, children⟩, child => ⟨body, children ++ [child]⟩

/-- A chain of nested states, each the initial and only child of the one before it. -/
def chain (first : String) : List String → Draft
  | [] => new first
  | next :: rest => ((new first).initial next).state (chain next rest)

/-! ### Building -/

/-- The defects of delays, given the milliseconds of the ones before them. A delay too long for 64
bits is named by the greatest one. -/
def delayDefects (id : String) (seen : List Nat) : List (Duration × TransitionDef) → List Defect
  | [] => []
  | (delay, _) :: rest =>
    if delay.IsWholeMillis then
      if delay.toMillis ∈ seen then
        .duplicateDelay id (min delay.toMillis Number.greatestWord) :: delayDefects id seen rest
      else delayDefects id (delay.toMillis :: seen) rest
    else .invalidDelay id delay.text :: delayDefects id seen rest

mutual

/-- The defects of a state with the given id, and then those of its children. -/
def defects (id : String) : Draft → List Defect
  | ⟨body, children⟩ => delayDefects id [] body.after ++ childDefects id [] children

/-- The defects of children, given the keys of the ones before them. -/
def childDefects (id : String) (seen : List String) : List Draft → List Defect
  | [] => []
  | child :: rest =>
    child.defects (id ++ "." ++ child.key) ++
      (if child.key ∈ seen then [.duplicateState id child.key] else []) ++
      childDefects id (child.key :: seen) rest

end

/-- The candidates of each event in the order of declaration. -/
def candidates (declared : List (String × TransitionDef)) : Dict (OneOrMany TransitionDef) :=
  declared.foldl
    (fun d e => d.insert e.1 (((d.find? e.1).getD (.many [])).push e.2)) .empty

/-- The transitions after a whole number of milliseconds. -/
def delays (declared : List (Duration × TransitionDef)) : Dict TransitionDef :=
  .ofList ((declared.filter fun e => e.1.IsWholeMillis).map fun e => (toString e.1.toMillis, e.2))

def DraftBody.toBody (b : DraftBody) : StateBody :=
  ⟨b.key, b.initial, .many b.entry, .many b.exit, candidates b.on, delays b.after, .many b.invoke,
    b.description⟩

mutual

/-- The definition of a state, its children in the order of declaration. -/
def toDef : Draft → StateDef
  | ⟨body, children⟩ => ⟨DraftBody.toBody body, toDefs children⟩

def toDefs : List Draft → List StateDef
  | [] => []
  | d :: rest => d.toDef :: toDefs rest

end

/-- The machine with this state as its root, or the defects of the draft. -/
def build (d : Draft) : Except (List Defect) Definition :=
  match d.defects d.key with
  | [] => .ok (.ofRoot d.toDef)
  | defects => .error defects

end Draft

end Statechart
