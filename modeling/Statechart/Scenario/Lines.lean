import Statechart.Journal.Basic
import Statechart.Scenario.Script

/-!
# What a scripted host writes down

Every call of the code of a scripted host leaves a line, and so does the answer to each of its
signals.
-/

namespace Statechart

/-- How yes and no are written. -/
def answerText (b : Bool) : String := if b then "true" else "false"

/-- The line that an observer writes about a snapshot. -/
def observerLine (subscription : Nat) (s : Snapshot Tally) : String :=
  "observer " ++ toString subscription ++ ": " ++ s.status.name ++ " [" ++
    ",".intercalate s.strings ++ "] " ++ (s.event.map Event.name).getD "-" ++ " " ++
    toString s.context.count.toInt

/-- The line that a scripted host writes about what happened, if any. -/
def Entry.line? : Entry Tally → Option String
  | .ran action event => some (action ++ "(" ++ event ++ ")")
  | .sent accepted => some ("sent " ++ answerText accepted)
  | .emitted none => some "no emitter"
  | .emitted (some accepted) => some ("emitted " ++ answerText accepted)
  | .serviceCalled service origin => some ("start " ++ service ++ " " ++ origin.label)
  | .tornDown service origin => some ("stop " ++ service ++ " " ++ origin.label)
  | .observed subscription snapshot => some (observerLine subscription snapshot)
  | _ => none

end Statechart
