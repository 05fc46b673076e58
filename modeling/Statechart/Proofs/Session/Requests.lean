import Statechart.Proofs.Interpreter.Rounds
import Statechart.Session.Basic

/-!
# What a session makes of its interpreter

A session has a clock and an agenda, and it may be asked to wait for messages or to run until the
machine is stopped (`Request`). Whatever it does, its interpreter sees nothing but calls: delays
elapse, tasks emit, messages are posted, the clock shows another time, and what waits is processed
(`Session.serve_calls`). So all that holds of runs of interpreters holds of sessions.
-/

namespace Statechart

/-- What a session may be asked to do. -/
inductive Request (C : Type) where
  /-- a call to the interpreter -/
  | call (c : Call C)
  /-- something is put onto the agenda -/
  | later (millis : Nat) (wake : Wake)
  /-- the clock goes on to a time -/
  | advance (time : Nat)
  /-- the next message is waited for and processed, with all that wait behind it -/
  | next (fuel : Nat)
  /-- messages are waited for and processed until the machine is stopped -/
  | run (fuel : Nat)

/-- An interpreter is there until it is dropped by a call. -/
theorem Interpreter.after_dropped {C : Type} (i : Interpreter C) {calls : List (Call C)}
    (hcalls : .drop ∉ calls) : (i.after calls).dropped = i.dropped := by
  induction calls generalizing i with
  | nil => rfl
  | cons c rest ih =>
    obtain ⟨hc, hrest⟩ := not_or.mp (mt List.mem_cons.mpr hcalls)
    exact (ih (i.perform c) hrest).trans (i.perform_moves (Ne.symm hc)).dropped

namespace Session

variable {C : Type} {s s' s'' : Session C}

/-- Do what is asked for. Nobody waits for the messages of an interpreter that was dropped. -/
def serve (s : Session C) : Request C → Session C
  | .call c => s.update fun i => i.perform c
  | .later millis wake => s.later millis wake
  | .advance time => s.advanceTo time
  | .next fuel => if s.interpreter.dropped then s else (s.next fuel).1
  | .run fuel => if s.interpreter.dropped then s else (s.run fuel).1

/-- Do what is asked for, one thing after another. -/
def serveAll (s : Session C) (requests : List (Request C)) : Session C := requests.foldl serve s

/-- From `s` to `s'` the interpreter sees calls only, and is not dropped. -/
def Follows (s s' : Session C) : Prop :=
  ∃ calls : List (Call C), .drop ∉ calls ∧ s'.interpreter = s.interpreter.after calls

theorem Follows.of_eq (h : s'.interpreter = s.interpreter) : Follows s s' :=
  ⟨[], List.not_mem_nil, h⟩

theorem Follows.trans (h : Follows s s') (h' : Follows s' s'') : Follows s s'' := by
  obtain ⟨calls, hcalls, hs⟩ := h
  obtain ⟨calls', hcalls', hs'⟩ := h'
  refine ⟨calls ++ calls', ?_, ?_⟩
  · simpa using ⟨hcalls, hcalls'⟩
  · rw [hs', hs, Interpreter.after, Interpreter.after, Interpreter.after, List.foldl_append]

theorem follows_call {c : Call C} (hc : c ≠ .drop)
    (h : s'.interpreter = s.interpreter.perform c) : Follows s s' :=
  ⟨[c], by simpa using hc.symm, h⟩

theorem Follows.dropped (h : Follows s s') : s'.interpreter.dropped = s.interpreter.dropped := by
  obtain ⟨calls, hcalls, hs⟩ := h
  rw [hs, s.interpreter.after_dropped hcalls]

/-! ### The clock -/

theorem follows_setClock (s : Session C) (now : Nat) : Follows s (s.setClock now) :=
  follows_call (c := .tick (.ofMillis now)) (by simp)
    (by simp [setClock, Interpreter.perform, Call.isRemote, Interpreter.carryOut])

/-- What reaches the interpreter from afar is a call. -/
theorem follows_remote (s : Session C) {c : Call C} (hc : c.isRemote = true) :
    Follows s (s.update fun i => i.carryOut c) := by
  refine follows_call (c := c) (by rintro rfl; simp [Call.isRemote] at hc) ?_
  simp [Interpreter.perform, hc, update, settle]

theorem follows_fire (s : Session C) (wake : Wake) : Follows s (s.fire wake) := by
  cases wake with
  | timer id => exact s.follows_remote (c := .elapse id) rfl
  | event event => exact s.follows_remote (c := .post event) rfl
  | stop => exact s.follows_remote (c := .requestStop) rfl
  | tick origin task =>
    have hemitted := s.follows_remote (c := .emit origin task.event) rfl
    simp only [fire]
    split
    · exact hemitted
    · exact hemitted.trans (.of_eq rfl)

theorem follows_fireUntil (limit fuel : Nat) (s : Session C) :
    Follows s (s.fireUntil limit fuel) := by
  induction fuel generalizing s with
  | zero => exact .of_eq rfl
  | succ fuel ih =>
    simp only [fireUntil]
    split
    · exact .of_eq rfl
    · rename_i sleeper agenda _
      have hthere : Follows s { s with agenda } := .of_eq rfl
      exact ((hthere.trans (follows_setClock _ _)).trans (follows_fire _ _)).trans (ih _)

theorem follows_advanceTo (s : Session C) (time : Nat) : Follows s (s.advanceTo time) :=
  (follows_fireUntil _ _ s).trans (follows_setClock _ _)

theorem follows_await (deadline fuel : Nat) (s : Session C) :
    Follows s (s.await deadline fuel) := by
  induction fuel generalizing s with
  | zero => exact .of_eq rfl
  | succ fuel ih =>
    simp only [await]
    split
    · split
      · exact follows_setClock s _
      · split
        · exact (follows_advanceTo s _).trans (ih _)
        · exact follows_setClock s _
    · exact .of_eq rfl

/-! ### Waiting for messages -/

theorem follows_nextBy (deadline fuel : Nat) (hd : s.interpreter.dropped = false) :
    Follows s (s.nextBy deadline fuel).1 := by
  let waited := if s.interpreter.status = .running then s.await deadline (s.agenda.load + 1) else s
  have hwaited : Follows s waited := by
    unfold waited
    split
    · exact follows_await _ _ s
    · exact .of_eq rfl
  refine hwaited.trans (follows_call (c := .next fuel) (by simp) ?_)
  rw [Interpreter.perform_of_kept (hwaited.dropped.trans hd)]
  rfl

theorem follows_next (fuel : Nat) (hd : s.interpreter.dropped = false) :
    Follows s (s.next fuel).1 := by
  have hadvanced := follows_advanceTo s s.now
  exact hadvanced.trans (follows_nextBy _ fuel (hadvanced.dropped.trans hd))

theorem follows_runBy (deadline fuel rounds : Nat) (hd : s.interpreter.dropped = false) :
    Follows s (s.runBy deadline fuel rounds).1 := by
  induction rounds generalizing s with
  | zero => exact .of_eq rfl
  | succ rounds ih =>
    have hnext := follows_nextBy deadline fuel hd
    simp only [runBy]
    split
    · exact .of_eq rfl
    · exact .of_eq rfl
    · split
      · rename_i s' hdone
        rw [hdone] at hnext
        exact hnext.trans (ih (hnext.dropped.trans hd))
      · rename_i s' outcome _ hother
        rw [hother] at hnext
        exact hnext

theorem follows_run (fuel : Nat) (hd : s.interpreter.dropped = false) :
    Follows s (s.run fuel).1 := by
  have hadvanced := follows_advanceTo s s.now
  exact hadvanced.trans (follows_runBy _ fuel fuel (hadvanced.dropped.trans hd))

/-- **The interpreter of a session sees nothing but calls.** -/
theorem serve_calls (s : Session C) (r : Request C) :
    ∃ calls : List (Call C), (s.serve r).interpreter = s.interpreter.after calls := by
  have hcalls {s' : Session C} (h : Follows s s') :
      ∃ calls : List (Call C), s'.interpreter = s.interpreter.after calls := by
    obtain ⟨calls, -, hs⟩ := h
    exact ⟨calls, hs⟩
  have hkept {s' : Session C} (h : s.interpreter.dropped = false → Follows s s') :
      ∃ calls : List (Call C), (if s.interpreter.dropped then s else s').interpreter =
        s.interpreter.after calls := by
    split
    case isTrue => exact ⟨[], rfl⟩
    case isFalse hd => exact hcalls (h (by simpa using hd))
  cases r with
  | call c => exact ⟨[c], rfl⟩
  | later millis wake => exact ⟨[], rfl⟩
  | advance time => exact hcalls (s.follows_advanceTo time)
  | next fuel => exact hkept (s.follows_next fuel)
  | run fuel => exact hkept (s.follows_run fuel)

/-- All that a session is asked to do amounts to a run of its interpreter. -/
theorem serveAll_rounds (s : Session C) (requests : List (Request C)) :
    Interpreter.Rounds s.interpreter (s.serveAll requests).interpreter := by
  induction requests generalizing s with
  | nil => exact .refl
  | cons r rest ih =>
    obtain ⟨calls, hcalls⟩ := s.serve_calls r
    have hserved : Interpreter.Rounds s.interpreter (s.serve r).interpreter :=
      hcalls ▸ s.interpreter.after_rounds calls
    exact hserved.trans (ih (s.serve r))

end Session

end Statechart
