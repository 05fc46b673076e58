import Statechart.InvokeHandle

/-!
# Trying out handles

A handle is tried out by stopping it and by letting time go by, while the runs of the host code
behind it are counted.
-/

namespace Statechart

/-- What stopping a handle under trial does. -/
inductive TrialTeardown where
  /-- count a run -/
  | count
  /-- end the loop that counts runs -/
  | abort

/-- A handle under trial. -/
structure HandleTrial where
  handle : InvokeHandle TrialTeardown
  /-- the time between two runs of the loop, if there is one -/
  period : Option Nat
  /-- the time that the loop has been running for -/
  elapsed : Nat
  runs : Nat

namespace HandleTrial

/-- A handle that counts a run when it is stopped. -/
def callback : HandleTrial := ⟨.new .count, none, 0, 0⟩

/-- A handle with nothing behind it. -/
def noop : HandleTrial := ⟨.noop, none, 0, 0⟩

/-- A handle on a loop that counts a run every `period` milliseconds. -/
def loop (period : Nat) : HandleTrial := ⟨.new .abort, some period, 0, 0⟩

/-- Stop the handle. -/
def stop (t : HandleTrial) : HandleTrial :=
  let (teardown, handle) := t.handle.stop
  match teardown with
  | none => { t with handle }
  | some .count => { t with handle, runs := t.runs + 1 }
  | some .abort => { t with handle, period := none }

/-- Let time go by. -/
def advance (t : HandleTrial) (millis : Nat) : HandleTrial :=
  match t.period with
  | none => t
  | some period =>
    let elapsed := t.elapsed + millis
    { t with elapsed, runs := elapsed / period }

end HandleTrial

end Statechart
