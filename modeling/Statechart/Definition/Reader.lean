import Statechart.Definition.Basic
import Statechart.Json.Fields
import Statechart.Json.Reader

/-!
# Reading definitions

Values are read as definitions. Members of unknown name are skipped. A value in one of the fields
that hold one item or several is looked at as a whole before it is read, and so is a whole
machine: there anything improper is an error even where it would be skipped.
-/

namespace Statechart

/-- Read one item or several. An array is read as a list of items if that is possible and as a
single item otherwise. -/
def OneOrMany.ofJson? (read : Json → Option α) (v : Json) : Option (OneOrMany α) :=
  match Json.list? read v with
  | some items => some (.many items)
  | none => (read v).map .one

/-- Names: a text or an array of texts. -/
def namesOfJson? (v : Json) : Option (OneOrMany String) :=
  if v.isProper then OneOrMany.ofJson? Json.text? v else none

namespace TransitionDef

def fieldNames : List String := ["target", "actions", "description"]

/-- A transition: its target alone, or an object. -/
def ofJson? (v : Json) : Option TransitionDef :=
  if v.isProper then
    match v with
    | .string target => some (goto target)
    | v =>
      (Json.objectFields? fieldNames v).bind fun fields =>
        (fields.nullable "target" Json.text?).bind fun target =>
          (fields.withDefault "actions" namesOfJson? (.many [])).bind fun actions =>
            (fields.nullable "description" Json.text?).map fun description =>
              ⟨target, actions, description⟩
  else none

end TransitionDef

namespace InvokeDef

def fieldNames : List String := ["src", "id"]

def ofJson? (v : Json) : Option InvokeDef :=
  (Json.recordFields? fieldNames v).bind fun fields =>
    (fields.required "src" Json.text?).bind fun service =>
      (fields.nullable "id" Json.text?).map fun id => ⟨service, id⟩

end InvokeDef

/-- The invocations of a state. -/
def invokesOfJson? (v : Json) : Option (OneOrMany InvokeDef) :=
  if v.isProper then OneOrMany.ofJson? InvokeDef.ofJson? v else none

/-- The candidates for an event. -/
def candidatesOfJson? (v : Json) : Option (OneOrMany TransitionDef) :=
  if v.isProper then OneOrMany.ofJson? TransitionDef.ofJson? v else none

/-- A map: an object, every member of which is read. Of two members with one key the later one
stays. -/
def Dict.ofJson? (read : Json → Option α) : Json → Option (Dict α)
  | .object members =>
    (readMembers members).map Dict.ofList
  | _ => none
where
  readMembers : List (String × Json) → Option (List (String × α))
    | [] => some []
    | (key, v) :: rest =>
      (read v).bind fun a => (readMembers rest).map ((key, a) :: ·)

namespace StateBody

def fieldNames : List String :=
  ["initial", "states", "entry", "exit", "on", "after", "invoke", "description"]

/-- What a state declares apart from its children. -/
def ofFields? (key : String) (fields : Json.Fields) : Option StateBody :=
  (fields.nullable "initial" Json.text?).bind fun initial =>
    (fields.withDefault "entry" namesOfJson? (.many [])).bind fun entry =>
      (fields.withDefault "exit" namesOfJson? (.many [])).bind fun exit =>
        (fields.withDefault "on" (Dict.ofJson? candidatesOfJson?) .empty).bind fun on =>
          (fields.withDefault "after" (Dict.ofJson? TransitionDef.ofJson?) .empty).bind
            fun after =>
              (fields.withDefault "invoke" invokesOfJson? (.many [])).bind fun invoke =>
                (fields.nullable "description" Json.text?).map fun description =>
                  ⟨key, initial, entry, exit, on, after, invoke, description⟩

end StateBody

namespace StateDef

mutual

/-- The children that the value of a state declares. -/
def childrenOfJson? : Json → Option (List StateDef)
  | .object members => childrenOfMembers? members
  | .array items => childrenOfItems? items
  | _ => some []

/-- The children in the member for the states. -/
def childrenOfMembers? : List (String × Json) → Option (List StateDef)
  | [] => some []
  | (name, v) :: rest => if name = "states" then statesOfJson? v else childrenOfMembers? rest

/-- The children in the second item of a state that is written as an array. -/
def childrenOfItems? : List Json → Option (List StateDef)
  | _ :: v :: _ => statesOfJson? v
  | _ => some []

/-- States by key. -/
def statesOfJson? : Json → Option (List StateDef)
  | .object members => statesOfMembers? members
  | _ => none

def statesOfMembers? : List (String × Json) → Option (List StateDef)
  | [] => some []
  | (key, v) :: rest =>
    match (Json.recordFields? StateBody.fieldNames v).bind (StateBody.ofFields? key),
      childrenOfJson? v, statesOfMembers? rest with
    | some body, some children, some states => some (⟨body, children⟩ :: states)
    | _, _, _ => none

end

/-- A state with the given key, as it is written. -/
def readAs? (key : String) (v : Json) : Option StateDef :=
  match (Json.recordFields? StateBody.fieldNames v).bind (StateBody.ofFields? key),
    childrenOfJson? v with
  | some body, some children => some ⟨body, children⟩
  | _, _ => none

/-- A state that stands for itself and has no key. -/
def ofJson? (v : Json) : Option StateDef := (readAs? "" v).map arrange

end StateDef

namespace Definition

/-- A machine: an object with the id and the fields of the root state. -/
def ofJson? (v : Json) : Option Definition :=
  if v.isProper then
    (Json.objectFields? ("id" :: StateBody.fieldNames) v).bind fun fields =>
      (fields.required "id" Json.text?).bind fun id =>
        (StateDef.readAs? id (.object fields)).map ofRoot
  else none

/-- The definition that a text spells. -/
def ofText? (text : String) : Option Definition := (Json.ofText? text).bind ofJson?

end Definition

end Statechart
