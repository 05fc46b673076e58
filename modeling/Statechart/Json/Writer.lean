import Statechart.Json.Basic
import Statechart.Json.Token

/-!
# Writing documents

A value is written as its tokens, either without any blanks (`compact`) or spread over lines
(`pretty`): every item and member on a line of its own, two spaces deeper than the container, and
a blank after the colon.
-/

namespace Statechart.Json

mutual

/-- The tokens of a value; in place of something improper there is a null. -/
def tokens : Json → List Token
  | improper | null => [.null]
  | bool b => [.bool b]
  | number n => [.number n]
  | string s => [.string s]
  | array items => .openArray :: itemTokens true items ++ [.closeArray]
  | object members => .openObject :: memberTokens true members ++ [.closeObject]

/-- The tokens of items, a comma before each but the first. -/
def itemTokens (first : Bool) : List Json → List Token
  | [] => []
  | v :: rest => (if first then [] else [.comma]) ++ v.tokens ++ itemTokens false rest

/-- The tokens of members, a comma before each but the first. -/
def memberTokens (first : Bool) : List (String × Json) → List Token
  | [] => []
  | (key, v) :: rest =>
    (if first then [] else [.comma]) ++ .string (some key) :: .colon :: v.tokens ++
      memberTokens false rest

end

/-- The text without blanks. -/
def compact (v : Json) : String := String.ofList (v.tokens.flatMap Token.text)

/-- A line break and the blanks of `depth` levels. -/
def lineBreak (depth : Nat) : List Char := '\n' :: List.replicate (2 * depth) ' '

mutual

/-- The text spread over lines, of a value at the given depth. -/
def prettyAt (depth : Nat) : Json → List Char
  | array [] => ['[', ']']
  | object [] => ['\x7b', '\x7d']
  | array (v :: rest) =>
    '[' :: lineBreak (depth + 1) ++ v.prettyAt (depth + 1) ++
      prettyItems (depth + 1) rest ++ lineBreak depth ++ [']']
  | object ((key, v) :: rest) =>
    '\x7b' :: lineBreak (depth + 1) ++ stringText key ++ ':' :: ' ' :: v.prettyAt (depth + 1) ++
      prettyMembers (depth + 1) rest ++ lineBreak depth ++ ['\x7d']
  | improper | null => Token.null.text
  | bool b => (Token.bool b).text
  | number n => n.text
  | string s => stringText s

/-- The items after the first. -/
def prettyItems (depth : Nat) : List Json → List Char
  | [] => []
  | v :: rest => ',' :: lineBreak depth ++ v.prettyAt depth ++ prettyItems depth rest

/-- The members after the first. -/
def prettyMembers (depth : Nat) : List (String × Json) → List Char
  | [] => []
  | (key, v) :: rest =>
    ',' :: lineBreak depth ++ stringText key ++ ':' :: ' ' :: v.prettyAt depth ++
      prettyMembers depth rest

end

/-- The text spread over lines. -/
def pretty (v : Json) : String := String.ofList (v.prettyAt 0)

/-- A member that is left out if there is no value. -/
def optionalMember (name : String) (write : α → Json) : Option α → List (String × Json)
  | none => []
  | some a => [(name, write a)]

end Statechart.Json
