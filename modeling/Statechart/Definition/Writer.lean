import Statechart.Definition.Basic
import Statechart.Json.Writer

/-!
# Writing definitions

Fields that hold nothing are left out, except that an event without candidates keeps its empty
list. A transition is always written as an object. A field that holds one item or several is
written the way it was read or built.
-/

namespace Statechart

/-- One item bare, several items as an array. -/
def OneOrMany.toJson (write : α → Json) : OneOrMany α → Json
  | .one item => write item
  | .many items => .array (items.map write)

/-- A member for items that is left out if there are none. -/
def Json.itemsMember (name : String) (write : α → Json) (items : OneOrMany α) :
    List (String × Json) :=
  if items.isEmpty then [] else [(name, items.toJson write)]

/-- A map as an object. -/
def Dict.toJson (write : α → Json) (d : Dict α) : Json :=
  .object (d.entries.map fun e => (e.1, write e.2))

/-- A member for a map that is left out if the map is empty. -/
def Json.dictMember (name : String) (write : α → Json) (d : Dict α) : List (String × Json) :=
  if d.isEmpty then [] else [(name, d.toJson write)]

/-- Names, bare or as an array. -/
def namesToJson (names : OneOrMany String) : Json := names.toJson .string

def TransitionDef.toJson (t : TransitionDef) : Json :=
  .object (Json.optionalMember "target" .string t.target ++
    Json.itemsMember "actions" .string t.actions ++
    Json.optionalMember "description" .string t.description)

def InvokeDef.toJson (d : InvokeDef) : Json :=
  .object (("src", .string d.service) :: Json.optionalMember "id" .string d.id)

def invokesToJson (invokes : OneOrMany InvokeDef) : Json := invokes.toJson InvokeDef.toJson

namespace StateDef

/-- The members of a state, given the ones for its children. -/
def membersWith (b : StateBody) (states : List (String × Json)) : List (String × Json) :=
  Json.optionalMember "initial" .string b.initial ++
    (if states.isEmpty then [] else [("states", .object states)]) ++
    Json.itemsMember "entry" .string b.entry ++
    Json.itemsMember "exit" .string b.exit ++
    Json.dictMember "on" (OneOrMany.toJson TransitionDef.toJson) b.on ++
    Json.dictMember "after" TransitionDef.toJson b.after ++
    Json.itemsMember "invoke" InvokeDef.toJson b.invoke ++
    Json.optionalMember "description" .string b.description

mutual

/-- The members of a state in the order of writing. -/
def members : StateDef → List (String × Json)
  | ⟨body, children⟩ => membersWith body (statesMembers children)

/-- The states by their keys. -/
def statesMembers : List StateDef → List (String × Json)
  | [] => []
  | d :: rest => (d.key, .object d.members) :: statesMembers rest

end

def toJson (d : StateDef) : Json := .object d.members

end StateDef

namespace Definition

def toJson (d : Definition) : Json := .object (("id", .string d.id) :: d.root.members)

/-- The text of a definition, spread over lines. -/
def toText (d : Definition) : String := d.toJson.pretty

end Definition

end Statechart
