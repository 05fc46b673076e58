/-!
# Defects of a definition

What can be wrong with the definition of a machine. A definition is refused as a whole, with the
list of all its defects that were found.
-/

namespace Statechart

/-- A single defect. States are named by their ids. -/
inductive Defect where
  | invalidMachineId (id : String)
  | invalidStateKey (parent key : String)
  | duplicateState (parent key : String)
  | missingInitial (state : String)
  | unknownInitial (state initial : String)
  | initialOnLeaf (state initial : String)
  | unresolvedTarget (state event target : String)
  | unknownAction (state action : String)
  | unknownService (state service : String)
  | invalidDelay (state key : String)
  | duplicateDelay (state : String) (millis : Nat)
  deriving DecidableEq

namespace Defect

/-- What is said about a defect. -/
def message : Defect → String
  | invalidMachineId id =>
    "Machine id '" ++ id ++ "' must be non-empty and contain no '.' or '#'"
  | invalidStateKey parent key =>
    "State key '" ++ key ++ "' under '" ++ parent ++
      "' must be non-empty and contain no '.' or '#'"
  | duplicateState parent key =>
    "State '" ++ key ++ "' is declared more than once under '" ++ parent ++ "'"
  | missingInitial state =>
    "Compound state '" ++ state ++ "' has no initial child. Set `initial`"
  | unknownInitial state initial =>
    "Initial child '" ++ initial ++ "' of '" ++ state ++ "' is not one of its states"
  | initialOnLeaf state initial =>
    "Leaf state '" ++ state ++ "' declares an initial child '" ++ initial ++ "'"
  | unresolvedTarget state event target =>
    "Transition on '" ++ event ++ "' in '" ++ state ++ "' targets unknown state '" ++ target ++ "'"
  | unknownAction state action =>
    "Action '" ++ action ++ "' used by '" ++ state ++ "' has no implementation"
  | unknownService state service =>
    "Service '" ++ service ++ "' invoked by '" ++ state ++ "' has no implementation"
  | invalidDelay state key =>
    "Delay '" ++ key ++ "' in '" ++ state ++ "' is not a whole number of milliseconds"
  | duplicateDelay state millis =>
    "Delay of " ++ toString millis ++ "ms is declared more than once in '" ++ state ++ "'"

/-- What is said about a definition with the given defects. -/
def summary (defects : List Defect) : String :=
  "Invalid machine definition: " ++ "; ".intercalate (defects.map message)

end Defect

end Statechart
