import Statechart.Proofs.Interpreter.Moves

/-!
# Runs

A run of an interpreter is a sequence of calls (`Call`), in any order and from any side: of the
host that owns it, of whoever holds a handle or an emitter, of timers. Every state that an
interpreter gets into between two messages is reachable (`Reachable`), since a call may process any
number of messages. What no move breaks, and no drop, holds in all of them
(`Reachable.invariant`).
-/

namespace Statechart

/-- A call to an interpreter. Where messages are processed, `fuel` bounds their number. -/
inductive Call (C : Type) where
  | start (fuel : Nat)
  | send (fuel : Nat) (event : Event)
  | drain (fuel : Nat)
  | next (fuel : Nat)
  | stop
  | drop
  | subscribe (observer : Observer C)
  | unsubscribe (subscription : Nat)
  /-- a handle posts an event -/
  | post (event : Event)
  /-- a handle posts the request to stop -/
  | requestStop
  /-- an emitter posts an event -/
  | emit (origin : InvocationId) (event : Event)
  /-- the delay of a timer elapses -/
  | elapse (timer : TimerId)
  /-- the clock shows another time -/
  | tick (now : Instant)
  /-- the next start will find a clock, or none -/
  | provideClock (present : Bool)

/-- The call does not need the interpreter to be there. -/
def Call.isRemote {C : Type} : Call C → Bool
  | post _ | requestStop | emit .. | elapse _ | tick _ => true
  | _ => false

namespace Interpreter

variable {C : Type}

/-- Carry out a call. -/
def carryOut (i : Interpreter C) : Call C → Interpreter C
  | .start fuel => (i.start fuel).1
  | .send fuel event => (i.send fuel event).1
  | .drain fuel => (i.drain fuel).1
  | .next fuel => (i.next fuel).1
  | .stop => i.stop.1
  | .drop => i.drop
  | .subscribe observer => i.subscribe observer
  | .unsubscribe subscription => i.unsubscribe subscription
  | .post event => i.post (.event event none)
  | .requestStop => i.post .stop
  | .emit origin event => i.emit origin event
  | .elapse timer => i.post (.timer timer)
  | .tick now => { i with now }
  | .provideClock present => if i.status == .notStarted then { i with hasClock := present } else i

/-- Make a call. It comes to nothing if it needs an interpreter that was dropped. -/
def perform (i : Interpreter C) (c : Call C) : Interpreter C :=
  if i.dropped && !c.isRemote then i else i.carryOut c

/-- An interpreter of the machine that has gone through a run. -/
inductive Reachable (m : Machine C) : Interpreter C → Prop
  | fresh (context : C) (limit : Nat) :
      Reachable m ((Interpreter.new m context).withHistoryLimit limit)
  | call {i : Interpreter C} (h : Reachable m i) (c : Call C) : Reachable m (i.perform c)

theorem alike_carryOut (i : Interpreter C) {c : Call C} (hc : c.isRemote = true) :
    Alike i (i.carryOut c) := by
  cases c with
  | post event => exact alike_post i _
  | requestStop => exact alike_post i _
  | emit origin event => exact alike_emit i origin event
  | elapse timer => exact alike_post i _
  | tick now => exact alike_aside i _ _ _ _ _ _
  | _ => contradiction

theorem carryOut_moves {i : Interpreter C} {c : Call C} (hc : c ≠ .drop)
    (hd : i.dropped = false) : Moves i (i.carryOut c) := by
  cases c with
  | start fuel => exact start_moves fuel hd
  | send fuel event => exact send_moves fuel hd event
  | drain fuel => exact drain_moves fuel hd
  | next fuel => exact next_moves fuel hd
  | stop => exact stop_moves hd
  | drop => contradiction
  | subscribe observer => exact (alike_aside i _ _ _ _ _ _).moves
  | unsubscribe subscription => exact (alike_aside i _ _ _ _ _ _).moves
  | provideClock present =>
    simp only [carryOut]
    split
    case isTrue hs => exact .single (.clock (by simpa using hs) present)
    case isFalse => exact .refl
  | _ => exact (alike_carryOut i rfl).moves

/-- **A call is a number of moves**, unless it drops the interpreter. -/
theorem perform_moves (i : Interpreter C) {c : Call C} (hc : c ≠ .drop) :
    Moves i (i.perform c) := by
  unfold perform
  split
  case isTrue => exact .refl
  case isFalse h =>
    cases hremote : c.isRemote with
    | true => exact (alike_carryOut i hremote).moves
    | false => exact carryOut_moves hc (by simpa [hremote] using h)

/-- **What no move and no drop breaks holds in every reachable state.** -/
theorem Reachable.invariant {m : Machine C} {P : Interpreter C → Prop}
    (hfresh : ∀ context limit, P ((Interpreter.new m context).withHistoryLimit limit))
    (hmove : ∀ i j, P i → Move i j → P j)
    (hdrop : ∀ i, P i → i.dropped = false → P i.drop)
    {i : Interpreter C} (hi : Reachable m i) : P i := by
  have hmoves {i j : Interpreter C} (hi : P i) (h : Moves i j) : P j := by
    -- by induction on the number of moves
    induction h with
    | refl => exact hi
    | tail _ h ih => exact hmove _ _ ih h
  induction hi with
  | fresh context limit => exact hfresh context limit
  | @call i _ c ih =>
    by_cases hc : c = .drop
    -- A second drop changes nothing.
    · rw [hc]
      cases hd : i.dropped with
      | true => simpa [perform, hd, Call.isRemote] using ih
      | false => simpa [perform, hd, carryOut] using hdrop _ ih hd
    · exact hmoves ih (perform_moves i hc)

end Interpreter

end Statechart
