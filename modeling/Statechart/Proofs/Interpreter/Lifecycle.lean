import Statechart.Definition.Builder
import Statechart.Proofs.Interpreter.Coherence

/-!
# The life of an interpreter

An interpreter waits to be started, runs, and is stopped, or is stopped at once; it never goes back
(`perform_rank`). While it runs its active states are a path of the tree, and before and after that
nothing is active, invoked or armed (`Reachable.life`). A start that is refused for want of a clock
changes nothing at all.
-/

namespace Statechart

/-- How far the life of an interpreter has come. -/
def Status.rank : Status → Nat
  | notStarted => 0
  | running => 1
  | stopped => 2

/-- An action failed. -/
def Fault.isFailure : Fault → Bool
  | actionFailed .. => true
  | _ => false

namespace Interpreter

variable {C : Type} {i j : Interpreter C}

/-! ### The status -/

theorem Move.rank (h : Move i j) : i.status.rank ≤ j.status.rank := by
  cases h with
  | aside h => rw [h.status]
  | clock hs present => exact Nat.le_refl _
  | launch hs hd hclock => simp [hs, Status.rank]
  | take hs hd hactive htr => simp [Interpreter.shiftAlong]
  | late hs hd hid => exact Nat.le_refl _
  | ring hs hd ht hactive hdelay => simp [Interpreter.shiftAlong, expire, note]
  | lapse hs hd ht hvoid => exact Nat.le_refl _
  | halt hs hd => simp [hs, Status.rank]
  | refrain hs hd => simp [hs, Status.rank]

theorem Moves.rank (h : Moves i j) : i.status.rank ≤ j.status.rank := by
  induction h with
  | refl => exact Nat.le_refl _
  | tail _ hmove ih => exact Nat.le_trans ih hmove.rank

/-- **No call leads back to an earlier stage of life.** -/
theorem perform_rank (i : Interpreter C) (c : Call C) :
    i.status.rank ≤ (i.perform c).status.rank := by
  by_cases hc : c = .drop
  · cases hd : i.dropped with
    | true => simp [hc, perform, hd, Call.isRemote]
    | false => simp [hc, perform, hd, carryOut, (sameScene_drop hd).status]
  · exact (perform_moves i hc).rank

/-! ### Refused starts -/

theorem runActions_fault {event : Event} {actions : List ActionId} {fault : Fault}
    (h : (i.runActions event actions).2 = some fault) : fault.isFailure = true := by
  induction actions generalizing i with
  | nil => exact nomatch h
  | cons a rest ih =>
    rw [runActions_cons] at h
    split at h
    · exact ih h
    · cases h
      rfl

theorem react_fault {e : Entry C} {event : Event} {actions : List ActionId}
    {remember : Interpreter C → History} {fault : Fault}
    (h : (i.react e event actions remember).2 = some fault) : fault.isFailure = true :=
  runActions_fault h

theorem take_fault {tr : Transition} {event : Event} {fault : Fault}
    (h : (i.take tr event).2 = some fault) : fault.isFailure = true := by
  rw [take_eq] at h
  exact react_fault h

theorem stop_fault {fault : Fault} (h : i.stop.2 = some fault) : fault.isFailure = true := by
  cases hs : i.status with
  | notStarted =>
    rw [stop_eq_of_notStarted hs] at h
    cases h
  | stopped =>
    rw [stop_eq_of_stopped hs] at h
    cases h
  | running =>
    rw [stop_eq hs] at h
    exact react_fault h

/-- Nothing but an action fails while a message is processed. -/
theorem process_fault {e : Envelope} {fault : Fault} (h : (i.process e).2 = some fault) :
    fault.isFailure = true := by
  cases e with
  | event event origin =>
    simp only [process, processEvent] at h
    split at h
    · cases h
    · split at h
      · exact take_fault h
      · cases h
  | timer id =>
    simp only [process, processTimer] at h
    split at h
    · cases h
    · split at h
      · split at h
        · exact take_fault h
        · cases h
      · cases h
  | stop => exact stop_fault h

theorem drain_fault {fuel : Nat} {fault : Fault} (h : (i.drain fuel).2 = .failed fault) :
    fault.isFailure = true := by
  induction fuel generalizing i with
  | zero =>
    simp only [drain] at h
    split at h <;> cases h
  | succ fuel ih =>
    rcases i.idle_or_busy with hidle | ⟨e, rest, hs, hqueue⟩
    · rw [drain_idle hidle] at h
      cases h
    · rw [drain_succ hs hqueue] at h
      split at h
      case h_1 hfault =>
        cases h
        exact process_fault hfault
      case h_2 => exact ih h

/-- A start that fails for want of a clock changes nothing. -/
theorem start_of_noClock {fuel : Nat} {name : String}
    (h : (i.start fuel).2 = .failed (.noClock name)) : (i.start fuel).1 = i := by
  cases hs : i.status with
  | running => simp only [start, hs]
  | stopped => simp only [start, hs]
  | notStarted =>
    by_cases hclock : i.Clocked
    -- Once the machine is entered only actions can fail.
    · rw [start_eq fuel hs hclock] at h
      split at h
      case h_1 hfault =>
        cases h
        have hfailure := react_fault hfault
        cases hfailure
      case h_2 =>
        have hfailure := drain_fault h
        cases hfailure
    · rw [start_refused hs hclock]

/-! ### The whole life -/

theorem Coherent.nothing_held (hi : i.Coherent) (hs : i.status ≠ .running) :
    i.configuration.states = [] ∧ i.invocations = [] ∧ i.timers = [] := by
  have hempty := hi.nothing_active hs
  refine ⟨hempty, ?_, ?_⟩
  · cases hd : i.dropped with
    | true => exact (hi.dropped hd).1
    | false =>
      have hkeys := hi.invocations hd
      rw [hempty] at hkeys
      exact List.map_eq_nil_iff.mp hkeys
  · have hkeys := hi.timers
    rw [hempty] at hkeys
    exact List.map_eq_nil_iff.mp (List.sublist_nil.mp hkeys)

/-- **The life of an interpreter.** While it runs the active states are a path from the root down to
a leaf; before and after that nothing is active, invoked or armed. No call leads back to an earlier
stage, and a start that fails for want of a clock changes nothing. -/
theorem Reachable.life {d : Definition} {host : Implementations C} {m : Machine C}
    (hm : Machine.build d host = .ok m) (hi : Reachable m i) :
    (i.status = .running → i.configuration.IsPath m.tree) ∧
    (i.status ≠ .running → i.configuration.states = [] ∧ i.invocations = [] ∧ i.timers = []) ∧
    (∀ c : Call C, i.status.rank ≤ (i.perform c).status.rank) ∧
    (∀ fuel name, (i.start fuel).2 = .failed (.noClock name) → (i.start fuel).1 = i) := by
  have hcoherent := hi.coherent hm
  have htree : i.tree = m.tree := congrArg Machine.tree hi.machine
  refine ⟨?_, hcoherent.nothing_held, perform_rank i, fun _ _ => start_of_noClock⟩
  intro hs
  obtain ⟨leaf, hleaf⟩ := hcoherent.running hs
  exact htree ▸ hcoherent.tree.isPath_of_endsAt hleaf

end Interpreter

/-! ### A lamp -/

/-- A lamp that goes off by itself, and hums while it is on. -/
def lamp : Definition := .ofRoot <| Draft.toDef <|
  ((Draft.new "lamp").initial "off").state ((Draft.new "off").on "press" (.goto "on")) |>.state
    ((((Draft.new "on").on "press" (.goto "off")).after (.ofMillis 50) (.goto "off")).invoke "hum")

/-- The host of a lamp. -/
def lampHost : Implementations Nat := Implementations.none.service "hum" .idle

def lampMachine : Machine Nat := .built lamp lampHost

theorem build_lamp : Machine.build lamp lampHost = .ok lampMachine := Machine.build_built rfl

/-- A lamp that was pressed once. -/
def lampOn : Interpreter Nat :=
  (((Interpreter.new lampMachine 0).withHistoryLimit 10).perform (.start 1)).perform
    (.send 1 (.named "press"))

theorem reachable_lampOn : Interpreter.Reachable lampMachine lampOn :=
  .call (.call (.fresh 0 10) _) _

theorem lampOn_life : lampOn.status = .running ∧ lampOn.configuration.IsPath lampMachine.tree := by
  have hrunning : lampOn.status = .running := by decide +kernel
  exact ⟨hrunning, (Interpreter.Reachable.life build_lamp reachable_lampOn).1 hrunning⟩

/-! ### A ferry -/

/-- A ferry, whose radio is always on. Its engine, its radar and, as long as it is calm, its sonar
run only at sea. -/
def ferry : Definition := .ofRoot <| Draft.toDef <|
  (((Draft.new "ferry").initial "harbour").invoke "radio").state
    ((Draft.new "harbour").on "depart" (.goto "sea")) |>.state
    ((((((Draft.new "sea").initial "calm").invoke "engine").invoke "radar").after (.ofMillis 90)
        (.goto "harbour")).state
      ((((((Draft.new "calm").invoke "sonar").on "blow" (.goto "gale")).after (.ofMillis 30)
        .targetless).after (.ofMillis 60) (.goto "gale"))) |>.state
      (((Draft.new "gale").invoke "pump").after (.ofMillis 20) (.goto "calm")))

/-- The host of a ferry. The radio has nothing to stop. The engine and the pump are tasks, and the
radar and the sonar still send an event when they are stopped. -/
def ferryHost : Implementations Nat :=
  let turning : Service := fun _ => ⟨[], some ⟨10, .named "turn", 3⟩, .new .abort⟩
  let telling (event : String) : Service := fun _ =>
    ⟨[], none, .new (.callback [.send (.named event)])⟩
  ((((Implementations.none.service "radio" .idle).service "engine" turning).service "radar"
    (telling "blind")).service "sonar" (telling "deaf")).service "pump" turning

def ferryMachine : Machine Nat := .built ferry ferryHost

theorem build_ferry : Machine.build ferry ferryHost = .ok ferryMachine := Machine.build_built rfl

/-- A ferry at sea. -/
def ferryAtSea : Interpreter Nat :=
  (((Interpreter.new ferryMachine 0).withHistoryLimit 10).perform (.start 1)).perform
    (.send 1 (.named "depart"))

theorem reachable_ferryAtSea : Interpreter.Reachable ferryMachine ferryAtSea :=
  .call (.call (.fresh 0 10) _) _

end Statechart
