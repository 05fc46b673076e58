/-!
# Dotted paths

A path names a state by the keys on the way to it, with dots between them. `split` takes a path
apart and `join` puts it together again.
-/

namespace Statechart.Text

/-- The pieces between the dots. There is always at least one. -/
def pieces : List Char → List (List Char)
  | [] => [[]]
  | c :: rest =>
    match pieces rest with
    | [] => [[c]]
    | piece :: more => if c = '.' then [] :: piece :: more else (c :: piece) :: more

/-- The keys of a dotted path. -/
def split (path : String) : List String := (pieces path.toList).map String.ofList

/-- The dotted path of a list of keys. -/
def join : List String → String
  | [] => ""
  | [key] => key
  | key :: next :: rest => key ++ "." ++ join (next :: rest)

end Statechart.Text
