import Statechart.Json.Basic
import Statechart.Json.Token

/-!
# Reading documents

Tokens are put together into values one after another: the containers that are still open are
kept innermost first, and each token either opens one, closes one, or completes a value. A
container within `nestingLimit` others is improper, and so is an object with a key that stands for
no text.
-/

namespace Statechart.Json

/-- How many containers may be nested in a proper value. -/
def nestingLimit : Nat := 127

/-- A container that is still open, with what it holds so far, last first. -/
inductive Frame where
  | items (done : List Json)
  | members (done : List (Option String × Json))
  | member (done : List (Option String × Json)) (key : Option String)

/-- What may come next. -/
inductive Expectation where
  | value
  | itemOrClose
  | keyOrClose
  | key
  | colon
  | commaOrClose
  | nothing
  deriving DecidableEq

/-- A document read in part. -/
structure Progress where
  frames : List Frame
  expects : Expectation
  /-- the whole value, once it is complete -/
  result : Option Json

/-- Before the first token. -/
def Progress.start : Progress := ⟨[], .value, none⟩

/-- A value is complete: it is the whole document, or goes to the innermost open container. -/
def Progress.complete (frames : List Frame) (v : Json) : Option Progress :=
  match frames with
  | [] => some ⟨[], .nothing, some v⟩
  | .items done :: rest => some ⟨.items (v :: done) :: rest, .commaOrClose, none⟩
  | .member done key :: rest => some ⟨.members ((key, v) :: done) :: rest, .commaOrClose, none⟩
  | .members _ :: _ => none

/-- An object with the given members, improper if one of the keys stands for no text. -/
def ofMembers (members : List (Option String × Json)) : Json :=
  if members.all fun m => m.1.isSome then
    .object (members.filterMap fun m => m.1.map fun key => (key, m.2))
  else .improper

/-- A container that stands within others. -/
def within (others : List Frame) (v : Json) : Json :=
  if others.length < nestingLimit then v else .improper

/-- A token at a place where a value is expected. -/
def Progress.startValue (frames : List Frame) : Token → Option Progress
  | .null => complete frames .null
  | .bool b => complete frames (.bool b)
  | .number n => complete frames ((n.map .number).getD .improper)
  | .string s => complete frames ((s.map .string).getD .improper)
  | .openArray => some ⟨.items [] :: frames, .itemOrClose, none⟩
  | .openObject => some ⟨.members [] :: frames, .keyOrClose, none⟩
  | _ => none

/-- Close the innermost container with the token that fits it. -/
def Progress.close (frames : List Frame) (token : Token) : Option Progress :=
  match frames, token with
  | .items done :: rest, .closeArray => complete rest (within rest (.array done.reverse))
  | .members done :: rest, .closeObject => complete rest (within rest (ofMembers done.reverse))
  | _, _ => none

/-- A string at a place where the key of a member is expected. -/
def Progress.startMember (frames : List Frame) : Token → Option Progress
  | .string key =>
    match frames with
    | .members done :: rest => some ⟨.member done key :: rest, .colon, none⟩
    | _ => none
  | _ => none

/-- A comma: one more item or member has to follow. -/
def Progress.continueFrame (frames : List Frame) : Option Progress :=
  match frames with
  | .items done :: rest => some ⟨.items done :: rest, .value, none⟩
  | .members done :: rest => some ⟨.members done :: rest, .key, none⟩
  | _ => none

/-- Take one more token. -/
def Progress.feed (p : Progress) (token : Token) : Option Progress :=
  match p.expects with
  | .value => startValue p.frames token
  | .itemOrClose => if token = .closeArray then close p.frames token else startValue p.frames token
  | .keyOrClose =>
    if token = .closeObject then close p.frames token else startMember p.frames token
  | .key => startMember p.frames token
  | .colon => if token = .colon then some ⟨p.frames, .value, none⟩ else none
  | .commaOrClose => if token = .comma then continueFrame p.frames else close p.frames token
  | .nothing => none

/-- Take tokens until one does not fit. -/
def Progress.feedAll (p : Progress) : List Token → Option Progress
  | [] => some p
  | token :: rest => (p.feed token).bind fun p => p.feedAll rest

/-- The value that a sequence of tokens spells. -/
def ofTokens? (tokens : List Token) : Option Json :=
  (Progress.start.feedAll tokens).bind Progress.result

/-- The value that a text spells. -/
def ofText? (text : String) : Option Json := (scan text.toList).bind ofTokens?

end Statechart.Json
