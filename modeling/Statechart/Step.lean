import Statechart.Configuration

/-!
# Steps

Which transition handles an event, and what taking it does to the active states. Nothing here has
an effect: a `Step` says what is to be done.
-/

namespace Statechart

/-- What taking a transition amounts to. -/
structure Step where
  /-- the state that declares the transition -/
  source : StateId
  /-- the deepest state that is not touched; all that is left or entered lies below it -/
  domain : StateId
  /-- the states that are left, innermost first -/
  exit : List StateId
  /-- the states that are entered, outermost first -/
  entry : List StateId
  /-- the actions on exit, of the transition, and on entry -/
  actions : List ActionId
  /-- the active states afterwards -/
  configuration : Configuration
  deriving DecidableEq

/-- Whether a step leaves or enters anything. -/
def Step.changesConfiguration (s : Step) : Bool := !s.exit.isEmpty || !s.entry.isEmpty

namespace StateTree

variable (t : StateTree)

/-- The transition that handles an event: the first candidate of the innermost active state that
has one. -/
def select (c : Configuration) (event : String) : Option Transition :=
  c.innermostFirst.findSome? fun s => ((t.node s).transitions event).head?

/-- What it means to take `transition`, whose source is active.

Below the domain the active states are left and the path to the target, with the initial states
below it, is entered. Without a target nothing is left or entered. -/
def plan (c : Configuration) (transition : Transition) : Step :=
  match transition.target with
  | none =>
    { source := transition.source
      domain := transition.source
      exit := []
      entry := []
      actions := transition.actions
      configuration := c }
  | some target =>
    let domain := t.domain transition.source target
    let exit := c.innermostFirst.takeWhile fun s => s != domain
    let entry := ((t.ancestors target).takeWhile fun s => s != domain).reverse ++
      (t.initialPath target).drop 1
    { source := transition.source
      domain
      exit
      entry
      actions := exit.flatMap (fun s => (t.node s).exit) ++ transition.actions ++
        entry.flatMap (fun s => (t.node s).entry)
      configuration := ⟨(c.states.takeWhile fun s => s != domain) ++ domain :: entry⟩ }

/-- What an event leads to; none if no active state handles it. -/
def step (c : Configuration) (event : String) : Option Step := (t.select c event).map (t.plan c)

end StateTree

end Statechart
