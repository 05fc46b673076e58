import Statechart.Proofs.Interpreter.Outcomes
import Statechart.Proofs.Interpreter.Passages
import Statechart.Proofs.Interpreter.Timers

/-!
# Destinations

The active states depend on the destination alone, which is the target of the last transition that
had one, or the root if there was none: they are those of an arrival at it (`Arrived`). It is a
state to which transitions can lead one after another from the root (`StateTree.Attainable`). If
host code sends nothing, a machine can be led to every such state (`exists_parked`), so these are
just the active states that there can be (`rounds_arrive`).
-/

namespace Statechart

variable {t : StateTree} {c : Configuration} {tr : Transition} {g g' : StateId}

/-! ### Where a machine can arrive -/

/-- The core can be told of it: an event may occur at any time, a delay elapses for an active
state. -/
def Impulse.Occurs (t : StateTree) (c : Configuration) : Impulse → Prop
  | .event _ => True
  | .delay d => ∃ s ∈ c.states, d ∈ (t.node s).after

theorem Impulse.Occurs.declared {x : Impulse} (hx : x.Occurs t c)
    (htr : x.transition? t c = some tr) : ∃ s ∈ c.states, tr ∈ (t.node s).declared := by
  cases x with
  | event event => exact StateTree.exists_of_select htr
  | delay delay =>
    obtain ⟨s, hs, hdelay⟩ := hx
    cases htr
    exact ⟨s, hs, List.mem_append_right _ (List.mem_map_of_mem hdelay)⟩

/-- Transitions lead there, one after another, from the root. -/
inductive StateTree.Attainable (t : StateTree) : StateId → Prop
  | root : Attainable t t.root
  | onward {g g' : StateId} {x : Impulse} {tr : Transition} (h : Attainable t g)
      (hoccurs : x.Occurs t (.arrival t g)) (htr : x.transition? t (.arrival t g) = some tr)
      (htarget : tr.target = some g') : Attainable t g'

theorem StateTree.Attainable.eq_root_or (h : t.Attainable g) :
    g = t.root ∨ ∃ s tr, tr ∈ (t.node s).declared ∧ tr.target = some g := by
  cases h with
  | root => exact .inl rfl
  | onward h hoccurs htr htarget =>
    obtain ⟨s, -, hdeclared⟩ := hoccurs.declared htr
    exact .inr ⟨s, _, hdeclared, htarget⟩

/-- The target of the transition that is taken, if one is taken and has a target. -/
def Passage.target? (p : Passage) : Option StateId := p.transition?.bind Transition.target

namespace Interpreter

variable {C : Type} {i j k : Interpreter C} {context : C}

/-! ### Where a machine has arrived -/

/-- The targets of the transitions that were taken. -/
def targets (i : Interpreter C) : List StateId := i.passages.filterMap Passage.target?

/-- The last of them, or the root. -/
def destination (i : Interpreter C) : StateId := i.targets.getLastD i.tree.root

theorem Rests.targets (h : Rests i j) : j.targets = i.targets :=
  congrArg (List.filterMap Passage.target?) h.passages

theorem Passes.targets {p : Passage} (h : Passes i p j) :
    j.targets = i.targets ++ p.target?.toList := by
  rw [Interpreter.targets, h.passages, List.filterMap_append]
  cases hp : p.target? <;> simp [hp, Interpreter.targets]

/-- What a message tells the core can occur. -/
theorem Coherent.occurs (hi : i.Coherent) {e : Envelope} {x : Impulse}
    (hx : i.impulse? e = some x) : x.Occurs i.tree i.configuration := by
  cases x with
  | event event => trivial
  | delay delay =>
    cases e with
    | event event origin =>
      rcases i.impulse?_event event origin with h | ⟨-, -, -, h⟩ <;> exact nomatch h.symm.trans hx
    | timer id =>
      obtain ⟨u, hu, hdelay⟩ := Option.bind_eq_some_iff.mp hx
      obtain ⟨delay, hafter, heq⟩ := Option.map_eq_some_iff.mp hdelay
      cases heq
      exact ⟨u.state, hi.state_mem (List.mem_of_find?_eq_some hu), List.mem_of_getElem? hafter⟩
    | stop => exact nomatch hx

/-- **A machine is where it arrived last.** -/
structure Arrived (i : Interpreter C) : Prop where
  attainable : i.tree.Attainable i.destination
  configuration : i.status = .running → i.configuration = .arrival i.tree i.destination

theorem Arrived.of_same (h : i.Arrived) (hmachine : j.machine = i.machine)
    (htargets : j.targets = i.targets)
    (hrunning : j.status = .running → i.status = .running ∧ j.configuration = i.configuration) :
    j.Arrived := by
  have htree : j.tree = i.tree := congrArg Machine.tree hmachine
  have hdestination : j.destination = i.destination := by
    rw [destination, destination, htargets, htree]
  constructor
  · rw [htree, hdestination]
    exact h.attainable
  · intro hs
    obtain ⟨hs, hconfiguration⟩ := hrunning hs
    rw [hconfiguration, htree, hdestination]
    exact h.configuration hs

/-- A machine that is entered arrives at the root. -/
theorem Passes.arrived_entrance (hi : i.Coherent) (h : Passes i .entrance j) : j.Arrived := by
  have htree : j.tree = i.tree := congrArg Machine.tree h.machine
  have hnone : j.targets = [] := by
    rw [h.targets, Interpreter.targets, passages_of_waiting h.stage]
    rfl
  have hdestination : j.destination = i.tree.root := by
    rw [destination, hnone, htree, List.getLastD_nil]
  rw [← htree] at hdestination
  constructor
  · rw [hdestination]
    exact .root
  · intro _
    rw [h.after, hdestination, htree, hi.tree.arrival_root]
    rfl

/-- A machine that takes a transition arrives at its target, if there is one. -/
theorem Passes.arrived_crossing (hi : i.Coherent) (h : i.Arrived) {e : Envelope} {event : Event}
    (hchoice : i.choice? e = some (tr, event))
    (hpasses : Passes i (.crossing i.configuration tr event) j) : j.Arrived := by
  have htree : j.tree = i.tree := congrArg Machine.tree hpasses.machine
  have hs : i.status = .running := hpasses.stage
  have hafter : j.configuration = (i.tree.plan i.configuration tr).configuration := hpasses.after
  cases htarget : tr.target with
  | none =>
    refine h.of_same hpasses.machine ?_ fun _ => ⟨hs, ?_⟩
    · simp [hpasses.targets, Passage.target?, Passage.transition?, htarget]
    · rw [hafter, (i.tree.plan_targetless _ htarget).2.2]
  | some g =>
    obtain ⟨x, himpulse, htr, rfl⟩ := exists_impulse hchoice
    have hoccurs := hi.occurs himpulse
    obtain ⟨leaf, hleaf⟩ := hi.running hs
    obtain ⟨s, hactive, hdeclared⟩ := hoccurs.declared htr
    have hdestination : j.destination = g := by
      simp [destination, hpasses.targets, Passage.target?, Passage.transition?, htarget]
    constructor
    · rw [hdestination, htree]
      rw [h.configuration hs] at hoccurs htr
      exact h.attainable.onward hoccurs htr htarget
    · intro _
      rw [hafter, hdestination, htree]
      exact hi.tree.plan_arrival hleaf hactive hdeclared htarget

/-- **Every round leaves a machine where it arrived last.** -/
theorem Chronicled.arrived (h : i.Chronicled context) (hi : i.Arrived) (hround : Round i j) :
    j.Arrived := by
  rcases h.rests_or_makes hround with hrests | ⟨hd, p, hmakes⟩
  · exact hi.of_same hrests.machine hrests.targets
      fun hs => ⟨hrests.status ▸ hs, hrests.configuration⟩
  have hpasses := h.passes hd hmakes
  have hover (htarget : p.target? = none) (hstatus : p.status = .stopped) : j.Arrived := by
    refine hi.of_same hpasses.machine ?_ fun hs => ?_
    · rw [hpasses.targets, htarget, Option.toList_none, List.append_nil]
    · exact nomatch (hpasses.status.trans hstatus).symm.trans hs
  cases hmakes with
  | start => exact hpasses.arrived_entrance h.coherent
  | take hs hqueue hchoice => exact hpasses.arrived_crossing h.coherent hi hchoice
  | stop => exact hover rfl rfl
  | request => exact hover rfl rfl
  | abandon => exact hover rfl rfl

theorem arrived_fresh (m : Machine C) (context : C) (limit : Nat) :
    ((Interpreter.new m context).withHistoryLimit limit).Arrived := ⟨.root, nofun⟩

section Runs

variable {d : Definition} {host : Implementations C} {m : Machine C} {limit : Nat}

theorem arrived_of_rounds (hm : Machine.build d host = .ok m)
    (h : Rounds ((Interpreter.new m context).withHistoryLimit limit) i) : i.Arrived := by
  induction h with
  | refl => exact arrived_fresh m context limit
  | tail hrounds hround ih => exact (chronicled_of_rounds hm hrounds).arrived ih hround

/-! ### Leading a machine somewhere -/

theorem after_append (i : Interpreter C) (xs ys : List (Call C)) :
    i.after (xs ++ ys) = (i.after xs).after ys := List.foldl_append

/-- Calls have led from `o` to `i`, where the machine runs with nothing left to do, and where it
arrived last is `g`. -/
structure Parked (o : Interpreter C) (g : StateId) (i : Interpreter C) : Prop where
  led : ∃ calls, i = o.after calls
  silent : i.Silent
  there : i.dropped = false
  running : i.status = .running
  queue : i.queue = []
  configuration : i.configuration = .arrival i.tree g

variable {o : Interpreter C}

theorem Parked.reachable (h : Parked o g i) (ho : Reachable m o) : Reachable m i := by
  obtain ⟨calls, rfl⟩ := h.led
  exact reachable_after ho calls

/-- A message is processed that leads to a transition. -/
theorem Parked.advance (h : Parked o g i) (hm : Machine.build d host = .ok m) (ho : Reachable m o)
    {call : Call C} {e : Envelope} (hcall : i.perform call = i.enqueue e) {event : Event}
    (hchoice : i.choice? e = some (tr, event)) (htarget : tr.target = some g') :
    ∃ j, Parked o g' j := by
  have hkept : (i.enqueue e).dropped = false := h.there
  have hs : (i.enqueue e).status = .running := h.running
  have hqueue : (i.enqueue e).queue = [e] := by rw [enqueue, h.queue, List.nil_append]
  have hsilent : (i.enqueue e).Silent :=
    ⟨h.silent.machine, h.silent.invocations, h.silent.observers⟩
  have hcoherent : (i.enqueue e).Coherent := (hcall ▸ (h.reachable ho).call call).coherent hm
  have hchoice : (i.enqueue e).choice? e = some (tr, event) := hchoice
  have hdrain : (i.perform call).perform (.drain 1) = ((i.enqueue e).handle e []).1 := by
    rw [hcall, perform_of_kept hkept, carryOut, drain_one hs hqueue]
  obtain ⟨⟨s, hactive, hdeclared⟩, htake⟩ := hcoherent.handle_of_some hchoice []
  obtain ⟨leaf, hleaf⟩ := hcoherent.running hs
  obtain ⟨hmachine, hconfiguration, hstatus⟩ := take_frame ((i.enqueue e).draw e []) tr event
  have htree : ((i.enqueue e).handle e []).1.tree = i.tree :=
    congrArg Machine.tree ((congrArg (fun r => r.1.machine) htake).trans hmachine)
  obtain ⟨calls, hcalls⟩ := h.led
  refine ⟨((i.enqueue e).handle e []).1, ?_⟩
  constructor
  case led => exact ⟨calls ++ [call, .drain 1], by rw [after_append, ← hcalls, ← hdrain]; rfl⟩
  case silent => exact (hsilent.twin.handle e []).left
  case there => exact handle_dropped _ hs hkept e []
  case running => exact (congrArg (fun r => r.1.status) htake).trans (hstatus.trans hs)
  case queue => exact List.length_eq_zero_iff.mp (Nat.le_zero.mp (hsilent.queue_handle hs e []))
  case configuration =>
    rw [htree, htake, hconfiguration]
    exact hcoherent.tree.plan_arrival hleaf hactive hdeclared htarget

/-- The delay of an armed timer elapses. -/
theorem Parked.elapse (h : Parked o g i) (hm : Machine.build d host = .ok m) (ho : Reachable m o)
    {s : StateId} {delay : Delay} {k : Nat} (hdelay : (i.tree.node s).after[k]? = some delay)
    (harmed : (s, k, delay.millis) ∈ i.timers.map Timer.key)
    (htarget : delay.transition.target = some g') : ∃ j, Parked o g' j := by
  obtain ⟨u, hu, hkey⟩ := List.mem_map.mp harmed
  obtain ⟨rfl, rfl, -⟩ := by simpa only [Timer.key, Prod.mk.injEq] using hkey
  obtain ⟨delay', hdelay', -, himpulse⟩ := ((h.reachable ho).coherent hm).impulse?_timer hu
  obtain rfl := Option.some.inj (hdelay.symm.trans hdelay')
  have hcall : i.perform (.elapse u.id) = i.enqueue (.timer u.id) := by
    rw [perform_of_kept h.there, carryOut, post_of_kept h.there]
  have hchoice : i.choice? (.timer u.id) = some (delay.transition, .named delay.event) := by
    rw [choice?, himpulse]
    rfl
  exact h.advance hm ho hcall hchoice htarget

/-- Only a delay of the root can have no timer: all others leave their states when they elapse. -/
theorem Parked.armed_or_root (h : Parked o g i) (hm : Machine.build d host = .ok m)
    (ho : Reachable m o) {s : StateId} {delay : Delay} {k : Nat}
    (hactive : s ∈ i.configuration.states) (hdelay : (m.tree.node s).after[k]? = some delay)
    (htarget : delay.transition.target = some g') :
    (s, k, delay.millis) ∈ i.timers.map Timer.key ∨ s = m.tree.root := by
  have htree : i.tree = m.tree := congrArg Machine.tree (h.reachable ho).machine
  have hdue : (s, k, delay.millis) ∈ i.tree.delayKeys i.configuration.states :=
    StateTree.mem_delayKeys.mpr ⟨hactive, delay, htree ▸ hdelay, rfl⟩
  by_cases harmed : (s, k, delay.millis) ∈ i.timers.map Timer.key
  · exact .inl harmed
  · obtain ⟨hexempt, -⟩ := ((h.reachable ho).timed hm h.there).gone _ hdue harmed
    exact .inr ((hexempt delay hdelay).resolve_left (by simp [htarget]))

theorem timers_launch (hi : i.Coherent) (hs : i.status = .notStarted) (hclock : i.Clocked) :
    i.launch.1.timers.map Timer.key = i.tree.delayKeys (Configuration.initial i.tree).states := by
  have hnone := hi.timers
  rw [hi.nothing_active (by simp [hs])] at hnone
  have htimers : i.timers = [] := List.map_eq_nil_iff.mp (List.sublist_nil.mp hnone)
  rw [launch, (alike_react _ rfl _ _ _).timers,
    (hi.numbered.shift_holdings hclock _ _ _ _).timers_eq, htimers, List.map_append, key_timersFrom]
  rfl

/-- A machine that is started has arrived at the root, and all delays of its states run. -/
theorem exists_parked_root (hm : Machine.build d host = .ok m) (hsilent : host.Silent)
    (context : C) (limit : Nat) :
    ∃ i, Parked ((Interpreter.new m context).withHistoryLimit limit) m.tree.root i ∧
      i.timers.map Timer.key = m.tree.delayKeys i.configuration.states := by
  let ready : Interpreter C :=
    { (Interpreter.new m context).withHistoryLimit limit with hasClock := true }
  have hreachable : Reachable m ready := (Reachable.fresh context limit).call (.provideClock true)
  have hcoherent := hreachable.coherent hm
  have hclock : ready.Clocked := fun _ => rfl
  have hstart : ready.perform (.start 0) = ready.launch.1 := by
    rw [perform_of_kept rfl, carryOut, start_eq 0 rfl hclock]
    split <;> rfl
  have hfresh := silent_fresh (Machine.silent_of_build hm hsilent) context limit
  have hlaunch : Hushed ready ready.launch.1 :=
    Silent.launch ⟨hfresh.machine, hfresh.invocations, hfresh.observers⟩
  obtain ⟨hmachine, hconfiguration, hstatus⟩ := launch_frame ready
  have htree : ready.launch.1.tree = m.tree := congrArg Machine.tree hmachine
  refine ⟨ready.launch.1, ?_, ?_⟩
  · constructor
    case led => exact ⟨[.provideClock true, .start 0], hstart.symm⟩
    case silent => exact hlaunch.silent
    case there => exact (launch_moves rfl rfl hclock).dropped
    case running => exact hstatus
    case queue => exact hlaunch.queue
    case configuration =>
      rw [hconfiguration, htree]
      exact hcoherent.tree.arrival_root.symm
  · rw [hconfiguration]
    exact timers_launch hcoherent rfl hclock

/-- **A machine that sends nothing can be led to wherever transitions lead.** -/
theorem exists_parked (hm : Machine.build d host = .ok m) (hsilent : host.Silent) (context : C)
    (limit : Nat) (hg : m.tree.Attainable g) :
    ∃ i, Parked ((Interpreter.new m context).withHistoryLimit limit) g i := by
  have hfresh : Reachable m ((Interpreter.new m context).withHistoryLimit limit) :=
    .fresh context limit
  obtain ⟨first, hfirst, htimers⟩ := exists_parked_root hm hsilent context limit
  induction hg with
  | root => exact ⟨first, hfirst⟩
  | @onward g g' x tr h hoccurs htr htarget ih =>
    obtain ⟨i, hi⟩ := ih
    have htree : i.tree = m.tree := congrArg Machine.tree (hi.reachable hfresh).machine
    rw [← htree, ← hi.configuration] at hoccurs htr
    cases x with
    | event event =>
      have hcall : i.perform (.post event) = i.enqueue (.event event none) := by
        rw [perform_of_kept hi.there, carryOut, post_of_kept hi.there]
      have hchoice : i.choice? (.event event none) = some (tr, event) := by
        rw [choice?, impulse?, Option.bind_some, htr]
        rfl
      exact hi.advance hm hfresh hcall hchoice htarget
    | delay delay =>
      obtain ⟨s, hactive, hdelay⟩ := hoccurs
      cases htr
      obtain ⟨k, hk⟩ := List.getElem?_of_mem hdelay
      rw [htree] at hk
      rcases hi.armed_or_root hm hfresh hactive hk htarget with harmed | rfl
      · exact hi.elapse hm hfresh (htree ▸ hk) harmed htarget
      -- The root is active from the beginning, so its timer is there when the machine is started.
      · have hreachable := hfirst.reachable hfresh
        have hstart : first.tree = m.tree := congrArg Machine.tree hreachable.machine
        obtain ⟨leaf, hleaf⟩ := (hreachable.coherent hm).running hfirst.running
        have hroot : m.tree.root ∈ first.configuration.states :=
          (Machine.wellFormed_of_build hm).root_active (hstart ▸ hleaf)
        refine hfirst.elapse hm hfresh (hstart ▸ hk) ?_ htarget
        rw [htimers]
        exact StateTree.mem_delayKeys.mpr ⟨hroot, delay, hk, rfl⟩

/-- **The active states depend on the last target alone.** While a machine runs they are the path
down to the target of the last transition that was taken and had one, or to the root if there was
none, and on along initial children. For the step that a transition with a target amounts to is the
same from wherever its source is active; one without a target leaves all as it is. So it can only be
at the root and at declared targets that a machine arrives, and if host code sends nothing there is
a run to each of them that transitions lead to. -/
theorem rounds_arrive (hm : Machine.build d host = .ok m) (context : C) (limit : Nat) :
    let fresh := (Interpreter.new m context).withHistoryLimit limit
    (∀ calls, Rounds fresh (fresh.after calls)) ∧ fresh.targets = [] ∧
    (∀ i, Rounds fresh i →
      (i.status = .running →
        i.configuration = .arrival m.tree (i.targets.getLastD m.tree.root) ∧
        m.tree.Attainable (i.targets.getLastD m.tree.root)) ∧
      ∀ j, Round i j → Rests i j ∧ j.targets = i.targets ∨
        ∃ p, Makes i p j ∧ j.targets = i.targets ++ p.target?.toList) ∧
    (host.Silent → ∀ c,
      (∃ calls, (fresh.after calls).status = .running ∧ (fresh.after calls).configuration = c) ↔
        ∃ g, m.tree.Attainable g ∧ c = .arrival m.tree g) ∧
    (∀ g, m.tree.Attainable g →
      g = m.tree.root ∨ ∃ s tr, tr ∈ (m.tree.node s).declared ∧ tr.target = some g) ∧
    ∀ (d' : Definition) (catalog : Catalog) (t : StateTree), StateTree.build d' catalog = .ok t →
      ∀ c c' : Configuration, c.IsPath t → c'.IsPath t → ∀ s ∈ c.states, s ∈ c'.states →
      ∀ tr ∈ (t.node s).declared,
        (∀ g, tr.target = some g → (t.plan c tr).configuration = .arrival t g ∧
          (t.plan c' tr).configuration = (t.plan c tr).configuration) ∧
        (tr.target = none → (t.plan c tr).configuration = c) := by
  intro fresh
  have hrunning {i : Interpreter C} (h : Rounds fresh i) (hs : i.status = .running) :
      i.configuration = .arrival m.tree (i.targets.getLastD m.tree.root) ∧
        m.tree.Attainable (i.targets.getLastD m.tree.root) := by
    have harrived := arrived_of_rounds hm h
    have htree : i.tree = m.tree := congrArg Machine.tree h.machine
    have hdestination : i.destination = i.targets.getLastD m.tree.root := by
      rw [destination, htree]
    rw [← hdestination, ← htree]
    exact ⟨harrived.configuration hs, harrived.attainable⟩
  refine ⟨after_rounds fresh, rfl, fun i h => ⟨hrunning h, fun j hround => ?_⟩, ?_,
    fun g hg => hg.eq_root_or, ?_⟩
  · have hchronicled := chronicled_of_rounds hm h
    rcases hchronicled.rests_or_makes hround with hrests | ⟨hd, p, hmakes⟩
    · exact .inl ⟨hrests, hrests.targets⟩
    · exact .inr ⟨p, hmakes, (hchronicled.passes hd hmakes).targets⟩
  · intro hsilent c
    constructor
    · rintro ⟨calls, hs, rfl⟩
      obtain ⟨hconfiguration, hattainable⟩ := hrunning (after_rounds fresh calls) hs
      exact ⟨_, hattainable, hconfiguration⟩
    · rintro ⟨g, hg, rfl⟩
      obtain ⟨i, hparked⟩ := exists_parked hm hsilent context limit hg
      obtain ⟨calls, rfl⟩ := hparked.led
      have htree : (fresh.after calls).tree = m.tree :=
        congrArg Machine.tree (Rounds.machine (after_rounds fresh calls))
      exact ⟨calls, hparked.running, htree ▸ hparked.configuration⟩
  · intro d' catalog t hbuild c c' hc hc' s hs hs' tr htr
    have ht := StateTree.wellFormed_of_build hbuild
    obtain ⟨leaf, hleaf⟩ := ht.isPath_iff.mp hc
    obtain ⟨leaf', hleaf'⟩ := ht.isPath_iff.mp hc'
    refine ⟨fun g hg => ?_, fun htarget => (t.plan_targetless c htarget).2.2⟩
    have hplan := ht.plan_arrival hleaf hs htr hg
    exact ⟨hplan, (ht.plan_arrival hleaf' hs' htr hg).trans hplan.symm⟩

end Runs

end Interpreter

/-! ### A tuner is turned -/

def tunerHost : Implementations Unit :=
  ["light", "fade", "turn"].foldl (fun host name => host.action name .idle) .none

def tunerMachine : Machine Unit := .built tuner tunerHost

theorem build_tunerMachine : Machine.build tuner tunerHost = .ok tunerMachine :=
  Machine.build_built rfl

theorem silent_tunerHost : tunerHost.Silent :=
  ((Implementations.silent_none.action fun _ _ _ => rfl).action fun _ _ _ => rfl).action
    fun _ _ _ => rfl

/-- A tuner is where it was switched to, whatever its volume, and it can be switched off. -/
theorem tuner_arrives :
    let fresh := (Interpreter.new tunerMachine ()).withHistoryLimit 10
    let i := fresh.after [.provideClock true, .start 5, .send 5 (.named "band"),
      .send 5 (.named "volume")]
    i.status = .running ∧ i.targets = [⟨3⟩] ∧
    i.configuration = .arrival tunerMachine.tree ⟨3⟩ ∧
    (Configuration.arrival tunerMachine.tree ⟨3⟩).states = [⟨0⟩, ⟨2⟩, ⟨3⟩] ∧
    ∃ calls, (fresh.after calls).status = .running ∧
      (fresh.after calls).configuration = .arrival tunerMachine.tree ⟨1⟩ := by
  intro fresh i
  have hrunning : i.status = .running := by decide +kernel
  have htargets : i.targets = [⟨3⟩] := by decide +kernel
  have hoff : tunerMachine.tree.Attainable ⟨1⟩ :=
    @StateTree.Attainable.onward _ _ _ (.event (.named "power")) ⟨⟨2⟩, some ⟨1⟩, [], none⟩ .root
      trivial (by decide +kernel) rfl
  obtain ⟨hcalls, -, hall, hled, -⟩ := Interpreter.rounds_arrive build_tunerMachine () 10
  have harrived := ((hall i (hcalls _)).1 hrunning).1
  rw [htargets] at harrived
  exact ⟨hrunning, htargets, harrived, by decide +kernel,
    (hled silent_tunerHost _).mpr ⟨⟨1⟩, hoff, rfl⟩⟩

/-- To turn the volume of a tuner is a transition without a target of the state in which it is on,
and leaves it at either band. -/
theorem tuner_turned :
    let c := Configuration.arrival tunerTree ⟨3⟩
    let c' := Configuration.arrival tunerTree ⟨4⟩
    let tr : Transition := ⟨⟨2⟩, none, [⟨1⟩], none⟩
    c.IsPath tunerTree ∧ c'.IsPath tunerTree ∧ ⟨2⟩ ∈ c.states ∧ ⟨2⟩ ∈ c'.states ∧
    tr ∈ (tunerTree.node ⟨2⟩).declared ∧
    (tunerTree.plan c tr).configuration ≠ (tunerTree.plan c' tr).configuration := by
  intro c c' tr
  have ht := StateTree.wellFormed_of_build build_tuner
  exact ⟨ht.isPath_of_endsAt (ht.endsAt_arrival (by decide)),
    ht.isPath_of_endsAt (ht.endsAt_arrival (by decide)), by decide +kernel, by decide +kernel,
    by decide +kernel, by decide +kernel⟩

end Statechart
