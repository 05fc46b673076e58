import Statechart.Keyed
import Statechart.Number.Basic

/-!
# Structured values

The values of the interchange format. A document that was read keeps the members of an object in
the order of the text, repeated keys included; a payload keeps them in ascending order, each key
once (`Json.arrange`).
-/

namespace Statechart

/-- A value of the interchange format. -/
inductive Json where
  /-- something of the form of a value that stands for none: a number beyond every double, a string
  with half of a surrogate pair, a container too deep inside others; it can be skipped -/
  | improper
  | null
  | bool (b : Bool)
  | number (n : Number)
  | string (s : String)
  | array (items : List Json)
  | object (members : List (String × Json))

namespace Json

instance : Inhabited Json := ⟨null⟩

mutual

/-- Whether nothing in the value is improper. -/
def isProper : Json → Bool
  | improper => false
  | array items => itemsProper items
  | object members => membersProper members
  | _ => true

def itemsProper : List Json → Bool
  | [] => true
  | v :: rest => v.isProper && itemsProper rest

def membersProper : List (String × Json) → Bool
  | [] => true
  | (_, v) :: rest => v.isProper && membersProper rest

end

mutual

/-- The same value with the members of every object in ascending order of their keys; of two
members with one key the later one stays. -/
def arrange : Json → Json
  | array items => array (arrangeItems items)
  | object members => object (Keyed.ofList Prod.fst (arrangeMembers members))
  | v => v

def arrangeItems : List Json → List Json
  | [] => []
  | v :: rest => v.arrange :: arrangeItems rest

def arrangeMembers : List (String × Json) → List (String × Json)
  | [] => []
  | (key, v) :: rest => (key, v.arrange) :: arrangeMembers rest

end

mutual

/-- Equality of values: numbers are compared as numbers, members in order. -/
def same : Json → Json → Bool
  | improper, improper => true
  | null, null => true
  | bool a, bool b => a == b
  | number a, number b => a.same b
  | string a, string b => a == b
  | array a, array b => sameItems a b
  | object a, object b => sameMembers a b
  | _, _ => false

def sameItems : List Json → List Json → Bool
  | [], [] => true
  | v :: rest, w :: more => v.same w && sameItems rest more
  | _, _ => false

def sameMembers : List (String × Json) → List (String × Json) → Bool
  | [], [] => true
  | (key, v) :: rest, (key', w) :: more => key == key' && v.same w && sameMembers rest more
  | _, _ => false

end

instance : BEq Json := ⟨same⟩

end Json

end Statechart
