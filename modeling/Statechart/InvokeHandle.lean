/-!
# Handles of invocations

The handle of an invocation holds what is left to do when it is stopped. Stopping hands that out
and leaves nothing behind, so it is done at most once (`stop_stop`).
-/

namespace Statechart

/-- What is left to do when something that was started is stopped. -/
structure InvokeHandle (α : Type) where
  pending : Option α

namespace InvokeHandle

variable {α : Type}

/-- A handle with something to tear down. -/
def new (teardown : α) : InvokeHandle α := ⟨some teardown⟩

/-- A handle with nothing to tear down. -/
def noop : InvokeHandle α := ⟨none⟩

/-- What is to be done now, and the handle afterwards. -/
def stop (h : InvokeHandle α) : Option α × InvokeHandle α := (h.pending, noop)

/-- Whether nothing is left to tear down. -/
def isStopped (h : InvokeHandle α) : Bool := h.pending.isNone

/-- A description of the handle. -/
def text (h : InvokeHandle α) : String :=
  "InvokeHandle \x7b stopped: " ++ toString h.isStopped ++ " \x7d"

@[simp] theorem fst_stop (h : InvokeHandle α) : h.stop.1 = h.pending := rfl

theorem stop_stop (h : InvokeHandle α) : h.stop.2.stop.1 = none := rfl

theorem isStopped_stop (h : InvokeHandle α) : h.stop.2.isStopped = true := rfl

end InvokeHandle

end Statechart
