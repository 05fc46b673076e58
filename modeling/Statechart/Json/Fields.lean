import Statechart.Json.Basic

/-!
# Reading records out of values

A record is written as an object, whose unknown members are skipped and whose known members may
not be repeated, or as an array with the fields in their order, of which the last ones may be
left out.
-/

namespace Statechart.Json

/-- The members of a record by name. -/
abbrev Fields := List (String × Json)

namespace Fields

/-- Give the items of an array to the names in their order; there may not be more items than
names. -/
def ofItems? : List String → List Json → Option Fields
  | _, [] => some []
  | [], _ :: _ => none
  | name :: names, v :: rest => (ofItems? names rest).map ((name, v) :: ·)

/-- Whether no known name is repeated. -/
def distinct (names : List String) (fields : Fields) : Bool :=
  names.all fun name => (fields.filter fun f => f.1 == name).length ≤ 1

/-- The value of a field, if it is there. -/
def get? (fields : Fields) (name : String) : Option Json :=
  (fields.find? fun f => f.1 == name).map Prod.snd

/-- A field that has to be there. -/
def required (fields : Fields) (name : String) (read : Json → Option α) : Option α :=
  (fields.get? name).bind read

/-- A field that may be left out for a default. -/
def withDefault (fields : Fields) (name : String) (read : Json → Option α) (default : α) :
    Option α :=
  match fields.get? name with
  | none => some default
  | some v => read v

/-- A field that may be left out or null. -/
def nullable (fields : Fields) (name : String) (read : Json → Option α) : Option (Option α) :=
  match fields.get? name with
  | none => some none
  | some .null => some none
  | some v => (read v).map some

end Fields

/-- The fields of a record that is written as an object. -/
def objectFields? (names : List String) : Json → Option Fields
  | object members => if Fields.distinct names members then some members else none
  | _ => none

/-- The fields of a record that is written as an object or as an array. -/
def recordFields? (names : List String) : Json → Option Fields
  | array items => Fields.ofItems? names items
  | v => objectFields? names v

def text? : Json → Option String
  | string s => some s
  | _ => none

/-- A whole number of 64 bits without a sign. -/
def natural? : Json → Option Nat
  | number (.whole n) => if 0 ≤ n ∧ n ≤ Number.greatestWord then some n.toNat else none
  | _ => none

/-- Read every item. -/
def readAll (read : Json → Option α) : List Json → Option (List α)
  | [] => some []
  | v :: rest => (read v).bind fun a => (readAll read rest).map (a :: ·)

/-- An array, every item of which is read. -/
def list? (read : Json → Option α) : Json → Option (List α)
  | array items => readAll read items
  | _ => none

/-- Any value in which nothing is improper, its members arranged. -/
def payload? (v : Json) : Option Json := if v.isProper then some v.arrange else none

end Statechart.Json
