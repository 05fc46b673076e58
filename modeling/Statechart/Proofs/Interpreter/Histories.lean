import Statechart.Proofs.History.Limits
import Statechart.Proofs.Interpreter.Control
import Statechart.Proofs.Interpreter.Passages

/-!
# Histories

A history holds the end of what there is to record, as much of it as its limit allows
(`History.record_rtake`). Only transitions are recorded, and nothing else changes what is active
while a machine runs. So the records are linked (`Linked`): each begins where the one before ended,
and the last one ends where the machine is (`rounds_recorded`).
-/

namespace Statechart

theorem History.path_untimed (h : History) : h.untimed.path = h.path := by
  rw [path, path, untimed, ← List.map_take, List.map_map, List.map_map]
  rfl

/-! ### Linked records -/

/-- The records lead from `a` to `b`: each begins where the one before ended. -/
def Linked : List String → List Record → List String → Prop
  | a, [], b => a = b
  | a, r :: rest, b => r.source = a ∧ Linked r.destination rest b

namespace Linked

variable {a b : List String} {r : Record} {all : List Record}

theorem concat (h : Linked a all b) (hr : r.source = b) :
    Linked a (all ++ [r]) r.destination := by
  induction all generalizing a with
  | nil =>
    obtain rfl : a = b := h
    exact ⟨hr, rfl⟩
  | cons s rest ih => exact ⟨h.1, ih h.2⟩

theorem isChain (h : Linked a all b) :
    all.IsChain fun r s => r.destination = s.source := by
  induction all generalizing a with
  | nil => exact .nil
  | cons r rest ih =>
    cases rest with
    | nil => exact .singleton r
    | cons s rest => exact .cons_cons h.2.1.symm (ih h.2)

theorem destination_eq (h : Linked a all b) (hr : all.getLast? = some r) : r.destination = b := by
  obtain ⟨front, rfl⟩ := List.getLast?_eq_some_iff.mp hr
  induction front generalizing a with
  | nil => exact h.2
  | cons s rest ih => exact ih h.2 (by simp)

/-- What leads through all records leads through the last ones, from a place that was visited. -/
theorem of_append {before after : List Record} (h : Linked a (before ++ after) b) :
    ∃ c, Linked c after b ∧
      c :: after.map Record.destination <:+
        a :: (before ++ after).map Record.destination := by
  induction before generalizing a with
  | nil => exact ⟨a, h, List.suffix_refl _⟩
  | cons r rest ih =>
    obtain ⟨c, hc, hsuffix⟩ := ih h.2
    exact ⟨c, hc, hsuffix.trans (List.suffix_cons _ _)⟩

/-- The last records lead to the same place. -/
theorem exists_rtake (h : Linked a all b) (limit : Nat) :
    ∃ c, Linked c (all.rtake limit) b ∧
      c :: (all.rtake limit).map Record.destination <:+ a :: all.map Record.destination := by
  have hall : all = all.take (all.length - limit) ++ all.rtake limit :=
    (List.take_append_drop _ _).symm
  rw [hall] at h
  obtain ⟨c, hc, hsuffix⟩ := h.of_append
  rw [← hall] at hsuffix
  exact ⟨c, hc, hsuffix⟩

/-- **The path of a history** is the end of what was visited. -/
theorem path_eq (h : Linked a all b) (limit : Nat) :
    History.path ⟨limit, all.rtake limit⟩ =
      if (all.rtake limit).length = 0 then []
      else (a :: all.map Record.destination).rtake ((all.rtake limit).length + 1) := by
  obtain ⟨c, hc, before, hbefore⟩ := h.exists_rtake limit
  cases hlast : all.rtake limit with
  | nil => simp [History.path]
  | cons r rest =>
    rw [hlast] at hc hbefore
    have hlength : (r :: rest).length + 1 = (c :: (r :: rest).map Record.destination).length := by
      simp
    rw [if_neg (by simp), ← hbefore, hlength, List.rtake, List.length_append, Nat.add_sub_cancel,
      List.drop_left, ← hc.1]
    rfl

end Linked

namespace Interpreter

variable {C : Type} {i j : Interpreter C}

/-- All transitions that were taken so far, as records without times. -/
def moves (i : Interpreter C) : List Record :=
  i.passages.filterMap fun p => p.record? i.tree .epoch

theorem Passes.moves {p : Passage} (h : Passes i p j) :
    j.moves = i.moves ++ (p.record? i.tree .epoch).toList := by
  have htree : j.tree = i.tree := congrArg Machine.tree h.machine
  rw [Interpreter.moves, h.passages, htree, List.filterMap_append]
  cases hrecord : p.record? i.tree .epoch <;> simp [Interpreter.moves, hrecord]

theorem Rests.moves (h : Rests i j) : j.moves = i.moves := by
  have htree : j.tree = i.tree := congrArg Machine.tree h.machine
  rw [Interpreter.moves, h.passages, htree]
  rfl

theorem Passes.untimed {p : Passage} (h : Passes i p j) :
    j.history.untimed =
      (p.record? i.tree .epoch).elim i.history.untimed i.history.untimed.record := by
  rw [h.history]
  cases p with
  | crossing c tr event => exact History.untimed_record _ _
  | _ => rfl

/-- **The history is right**: it holds the last transitions, and they are linked. -/
structure Recorded (limit : Nat) (i : Interpreter C) : Prop where
  history : i.history.untimed = ⟨limit, i.moves.rtake limit⟩
  taken : i.moves.map Record.event = i.taken.map Prod.fst
  linked : ∃ last, Linked ((Configuration.initial i.tree).idsBelowRoot i.tree) i.moves last ∧
    (i.status = .running → last = i.configuration.idsBelowRoot i.tree)

variable {limit : Nat}

theorem Recorded.rests (h : Recorded limit i) (hij : Rests i j) : Recorded limit j := by
  have htree : j.tree = i.tree := congrArg Machine.tree hij.machine
  have htaken : j.taken = i.taken := hij.log _ Entry.tells_taken
  constructor
  · rw [hij.history, hij.moves, h.history]
  · rw [hij.moves, htaken, h.taken]
  · rw [htree, hij.moves, hij.status, hij.configuration]
    exact h.linked

/-- **Every passage keeps the history right**, and only a transition is recorded. -/
theorem Recorded.passes {p : Passage} (h : Recorded limit i) (hij : Passes i p j) :
    Recorded limit j := by
  have htree : j.tree = i.tree := congrArg Machine.tree hij.machine
  obtain ⟨last, hlinked, hlast⟩ := h.linked
  constructor
  case history =>
    rw [hij.untimed, hij.moves, h.history]
    cases p.record? i.tree .epoch with
    | none => simp
    | some r => exact History.record_rtake limit i.moves r
  case taken =>
    rw [hij.moves, hij.taken, List.map_append, List.map_append, h.taken]
    cases p <;> rfl
  case linked =>
    rw [htree, hij.moves, hij.status]
    cases p with
    | entrance =>
      -- No transition was taken before the machine was entered.
      have hnone : i.moves = [] := by
        rw [moves, passages_of_waiting hij.stage]
        rfl
      rw [hnone]
      exact ⟨_, rfl, fun _ => by rw [hij.after]; rfl⟩
    | crossing c tr event =>
      have hc : i.configuration = c := hij.before
      refine ⟨_, hlinked.concat ?_, fun _ => by rw [hij.after]; rfl⟩
      rw [hlast hij.stage, hc]
    | departure c =>
      refine ⟨last, ?_, nofun⟩
      exact (List.append_nil i.moves).symm ▸ hlinked
    | abandonment =>
      refine ⟨last, ?_, nofun⟩
      exact (List.append_nil i.moves).symm ▸ hlinked

theorem Recorded.records (h : Recorded limit i) :
    (i.history.records.map fun r => { r with time := .epoch }) = i.moves.rtake limit :=
  congrArg History.records h.history

/-- There are as many records as transitions, up to the limit. -/
theorem Recorded.size (h : Recorded limit i) : i.history.size = min limit i.taken.length := by
  have hlength := congrArg List.length h.taken
  rw [List.length_map, List.length_map] at hlength
  have hrecords := congrArg List.length h.records
  rw [List.length_map, List.rtake, List.length_drop, hlength] at hrecords
  rw [History.size, hrecords]
  omega

/-- **Only a transition is recorded.** -/
theorem Chronicled.moves_of_round {context : C} (h : i.Chronicled context) (hround : Round i j) :
    j.moves = i.moves ∧ j.history = i.history ∨
      ∃ tr event, Makes i (.crossing i.configuration tr event) j := by
  rcases h.rests_or_makes hround with hrests | ⟨hd, p, hmakes⟩
  · exact .inl ⟨hrests.moves, hrests.history⟩
  · have hpasses := h.passes hd hmakes
    cases p with
    | crossing c tr event =>
      obtain rfl : i.configuration = c := hpasses.before
      exact .inr ⟨tr, event, hmakes⟩
    | _ => exact .inl ⟨hpasses.moves.trans (List.append_nil _), hpasses.history⟩

section Runs

variable {d : Definition} {host : Implementations C} {m : Machine C} {context : C}

theorem recorded_of_rounds (hm : Machine.build d host = .ok m)
    (h : Rounds ((Interpreter.new m context).withHistoryLimit limit) i) : Recorded limit i := by
  refine Rounds.of_passages hm ?_ (fun _ _ => Recorded.rests) (fun _ _ _ => Recorded.passes) h
  exact ⟨congrArg (History.mk limit) (List.rtake_nil limit).symm, rfl, _, rfl, nofun⟩

/-- **The history is the truth about the run.** A record is made when a transition is taken, failed
or not, of the event and of what is active before and after it, and at no other time. The history
holds the last records, up to the limit; each begins where the one before ended, and while the
machine runs the last one ends where it is. The path of the history is the end of the sequence of
all that was active since the start. -/
theorem rounds_recorded (hm : Machine.build d host = .ok m) (context : C) (limit : Nat) :
    let fresh := (Interpreter.new m context).withHistoryLimit limit
    let start := (Configuration.initial m.tree).idsBelowRoot m.tree
    (∀ calls, Rounds fresh (fresh.after calls)) ∧
    ∀ i, Rounds fresh i →
      (∀ j, Round i j → j.moves = i.moves ∧ j.history = i.history ∨
        ∃ tr event, Makes i (.crossing i.configuration tr event) j) ∧
      (i.dropped = false → ∀ j tr event, Makes i (.crossing i.configuration tr event) j →
        j.moves = i.moves ++ [⟨event.name, i.configuration.idsBelowRoot m.tree,
          j.configuration.idsBelowRoot m.tree, .epoch⟩]) ∧
      i.moves.map Record.event = i.taken.map Prod.fst ∧
      i.history.untimed = ⟨limit, i.moves.rtake limit⟩ ∧
      i.history.size = min limit i.taken.length ∧
      (i.history.records.IsChain fun r s => r.destination = s.source) ∧
      (i.status = .running → ∀ r, i.history.last? = some r →
        r.destination = i.configuration.idsBelowRoot m.tree) ∧
      i.history.path = if i.history.size = 0 then []
        else (start :: i.moves.map Record.destination).rtake (i.history.size + 1) := by
  intro fresh start
  refine ⟨after_rounds fresh, ?_⟩
  intro i h
  have hchronicled := chronicled_of_rounds hm h
  have hrecorded := recorded_of_rounds hm h
  obtain ⟨last, hlinked, hlast⟩ := hrecorded.linked
  obtain rfl : i.machine = m := h.machine
  obtain ⟨_, hlinked', -⟩ := hlinked.exists_rtake limit
  have hrecords := hrecorded.records
  refine ⟨fun _ => hchronicled.moves_of_round, ?_, hrecorded.taken, hrecorded.history,
    hrecorded.size, ?_, ?_, ?_⟩
  · intro hd j tr event hmakes
    have hpasses := hchronicled.passes hd hmakes
    rw [hpasses.moves, hpasses.after]
    rfl
  · have hchain := hrecords ▸ hlinked'.isChain
    exact (List.isChain_map _).mp hchain
  · intro hs r hr
    have hlast' : (i.moves.rtake limit).getLast? = some { r with time := .epoch } := by
      rw [← hrecords, List.getLast?_map]
      exact congrArg (Option.map _) hr
    have hdestination := hlinked'.destination_eq hlast'
    exact hdestination.trans (hlast hs)
  · have hsize : i.history.size = (i.moves.rtake limit).length := by
      rw [← hrecords, List.length_map]
      rfl
    rw [← i.history.path_untimed, hrecorded.history, hlinked.path_eq limit, hsize]
    rfl

end Runs

end Interpreter

/-- A fuse that was blown, was whole again, and is blown once more, with room for two records. -/
theorem fuse_recorded :
    let i := ((Interpreter.new fuseMachine 0).withHistoryLimit 2).after [.start 1,
      .send 5 (.named "surge"), .elapse ⟨0⟩, .drain 5, .send 5 (.named "drizzle"),
      .send 5 (.named "surge")]
    i.failures.length = 2 ∧ i.taken.length = 3 ∧ i.history.size = min 2 3 ∧
    i.history.untimed = ⟨2, i.moves.rtake 2⟩ ∧
    i.history.path = ((Configuration.initial fuseMachine.tree).idsBelowRoot fuseMachine.tree ::
      i.moves.map Record.destination).rtake 3 := by
  intro i
  have htaken : i.taken.length = 3 := by decide +kernel
  obtain ⟨hcalls, hrecorded⟩ := Interpreter.rounds_recorded build_fuse 0 2
  obtain ⟨-, -, -, hhistory, hsize, -, -, hpath⟩ := hrecorded i (hcalls _)
  rw [htaken] at hsize
  rw [hsize] at hpath
  exact ⟨by decide +kernel, htaken, hsize, hhistory, hpath⟩

end Statechart
