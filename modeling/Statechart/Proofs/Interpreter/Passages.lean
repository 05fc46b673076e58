import Statechart.Proofs.Interpreter.Accounts
import Statechart.Proofs.Interpreter.Finality
import Statechart.Proofs.Step.Plans

/-!
# Passages

What a machine goes through in a run is a sequence of passages: it is entered, it takes transitions,
and it is left for good (`Passage`). The journal tells them, for they are what the core makes of
what it was told (`Interpreter.passages`). Every passage leaves the same kinds of traces, in the
state of the interpreter and in the journal (`Passes`), and whatever else happens leaves none
(`Rests`). So what all passages keep up holds throughout a run (`Rounds.of_passages`).
-/

namespace Statechart

/-- A passage in the life of a machine. -/
inductive Passage where
  /-- the machine is entered -/
  | entrance
  /-- a transition is taken on an event, from the given active states -/
  | crossing (c : Configuration) (transition : Transition) (event : Event)
  /-- the machine is left for good -/
  | departure (c : Configuration)
  /-- the machine is given up before it was entered -/
  | abandonment

namespace Passage

variable (t : StateTree)

/-- The step that a passage amounts to. -/
def step : Passage → Step
  | entrance => t.opening
  | crossing c tr _ => t.plan c tr
  | departure c => t.halt c
  | abandonment => t.halt .empty

/-- The active states before. -/
def before : Passage → Configuration
  | crossing c _ _ | departure c => c
  | entrance | abandonment => .empty

/-- The active states afterwards. -/
def after (p : Passage) : Configuration := (p.step t).configuration

/-- The event that leads there. -/
def event? : Passage → Option Event
  | entrance => some .init
  | crossing _ _ event => some event
  | departure _ => some .stop
  | abandonment => none

/-- The event that the actions see. If there is no event there are no actions either. -/
def occasion (p : Passage) : Event := p.event?.getD .stop

/-- The status before. -/
def stage : Passage → Status
  | entrance | abandonment => .notStarted
  | crossing .. | departure _ => .running

/-- The status afterwards. -/
def status : Passage → Status
  | entrance | crossing .. => .running
  | departure _ | abandonment => .stopped

/-- The transition that is taken, if one is. -/
def transition? : Passage → Option Transition
  | crossing _ tr _ => some tr
  | _ => none

/-- The states on the way in, if this is the way in. -/
def entered? : Passage → Option (List String)
  | entrance => some ((Configuration.initial t).value t)
  | _ => none

/-- The event and the id of the state whose transition is taken, if one is. -/
def taken? : Passage → Option (String × String)
  | crossing _ tr event => some (event.name, (t.node tr.source).id)
  | _ => none

/-- What goes down in history of it, if anything does. -/
def record? (now : Instant) : Passage → Option Record
  | crossing c tr event =>
    some ⟨event.name, c.idsBelowRoot t, (t.plan c tr).configuration.idsBelowRoot t, now⟩
  | _ => none

/-- The actions are those on exit of the states that are left, those of the transition, and those on
entry of the states that are entered. -/
theorem actions_step (p : Passage) :
    (p.step t).actions = (p.step t).exit.flatMap (fun s => (t.node s).exit) ++
      p.transition?.toList.flatMap Transition.actions ++
      (p.step t).entry.flatMap (fun s => (t.node s).entry) := by
  cases p with
  | entrance => simp [step, StateTree.opening, transition?]
  | crossing c tr event => simp [step, t.actions_plan c tr, transition?]
  | departure c => simp [step, StateTree.halt, transition?]
  | abandonment => simp [step, StateTree.halt, transition?]

end Passage

/-- The transitions that the core takes when it is told impulses. -/
def StateTree.crossings (t : StateTree) : Configuration → List Impulse → List Passage
  | _, [] => []
  | c, x :: rest =>
    ((x.transition? t c).map fun tr => .crossing c tr x.occasion).toList ++
      crossings t (t.follow c x) rest

theorem StateTree.crossings_append (t : StateTree) (c : Configuration) (xs ys : List Impulse) :
    t.crossings c (xs ++ ys) = t.crossings c xs ++ t.crossings (xs.foldl t.follow c) ys := by
  induction xs generalizing c with
  | nil => rfl
  | cons x rest ih =>
    rw [List.cons_append, crossings, ih, crossings, List.append_assoc]
    rfl

namespace Entry

variable {C : Type}

/-- The active states with which the machine was entered. -/
def started? : Entry C → Option (List String)
  | started value => some value
  | _ => none

/-- The event and the id of the state whose transition was taken. -/
def taken? : Entry C → Option (String × String)
  | taken event source _ _ _ => some (event, source)
  | _ => none

/-- The action that failed, the event, and the reason. -/
def failed? : Entry C → Option (String × String × String)
  | actionFailed action event message => some (action, event, message)
  | _ => none

/-- What an observer was shown. -/
def observed? : Entry C → Option (Nat × Snapshot C)
  | observed subscription snapshot => some (subscription, snapshot)
  | _ => none

/-- The entry says that the host is to react. -/
def isCue : Entry C → Bool
  | started _ | stopped | taken .. => true
  | _ => false

/-- The entry is about a passage, be it of what the host makes of it. -/
def isPassing : Entry C → Bool
  | started _ | stopped | stoppedUnstarted | taken .. | ran .. | actionFailed .. | observed .. =>
    true
  | _ => false

theorem isPassing_of_isTraffic {e : Entry C} (h : e.isTraffic = true) : e.isPassing = false := by
  cases e with
  | enqueued => rfl
  | sent => rfl
  | emitted => rfl
  | _ => exact nomatch h

theorem isPassing_of_isHolding {e : Entry C} (h : e.isHolding = true) : e.isPassing = false := by
  cases e with
  | started => exact nomatch h
  | stopped => exact nomatch h
  | stoppedUnstarted => exact nomatch h
  | taken => exact nomatch h
  | ran => exact nomatch h
  | actionFailed => exact nomatch h
  | observed => exact nomatch h
  | _ => rfl

theorem isPassing_of_isDismissal {e : Entry C} (h : e.isDismissal = true) :
    e.isPassing = false := by
  cases e with
  | stale => rfl
  | unhandled => rfl
  | timerWasCancelled => rfl
  | _ => exact nomatch h

theorem of_isCue {e : Entry C} (h : e.isCue = true) :
    e.isTraffic = false ∧ e.isDeed = false ∧ e.ran? = none ∧ e.failed? = none ∧
      e.observed? = none := by
  cases e with
  | started => exact ⟨rfl, rfl, rfl, rfl, rfl⟩
  | stopped => exact ⟨rfl, rfl, rfl, rfl, rfl⟩
  | taken => exact ⟨rfl, rfl, rfl, rfl, rfl⟩
  | _ => exact nomatch h

/-- A log of the kind that tells of passages. -/
def Tells {α : Type} (f : Entry C → Option α) : Prop := ∀ e, e.isPassing = false → f e = none

theorem tells_started : Tells (started? (C := C)) := by
  intro e h
  cases e with
  | started => exact nomatch h
  | _ => rfl

theorem tells_taken : Tells (taken? (C := C)) := by
  intro e h
  cases e with
  | taken => exact nomatch h
  | _ => rfl

theorem tells_ran : Tells (ran? (C := C)) := by
  intro e h
  cases e with
  | ran => exact nomatch h
  | _ => rfl

theorem tells_failed : Tells (failed? (C := C)) := by
  intro e h
  cases e with
  | actionFailed => exact nomatch h
  | _ => rfl

theorem tells_observed : Tells (observed? (C := C)) := by
  intro e h
  cases e with
  | observed => exact nomatch h
  | _ => rfl

end Entry

namespace Interpreter

variable {C : Type} {i j k : Interpreter C}

/-! ### What can be told from a journal -/

/-- The active states with which the machine was entered, as often as it was. -/
def entrances (i : Interpreter C) : List (List String) := i.log Entry.started?

/-- All transitions that were taken: the event and the id of the state that declares it. -/
def taken (i : Interpreter C) : List (String × String) := i.log Entry.taken?

/-- All actions that failed, with the event and the reason. -/
def failures (i : Interpreter C) : List (String × String × String) := i.log Entry.failed?

/-- All that observers were shown. -/
def sightings (i : Interpreter C) : List (Nat × Snapshot C) := i.log Entry.observed?

/-- The transitions that were taken so far. -/
def crossings (i : Interpreter C) : List Passage :=
  i.tree.crossings (.initial i.tree) i.account.impulses

/-- The passages so far. -/
def passages (i : Interpreter C) : List Passage :=
  match i.status, i.entrances with
  | .notStarted, _ => []
  | .running, _ => .entrance :: i.crossings
  | .stopped, [] => [.abandonment]
  | .stopped, _ :: _ =>
    .entrance :: i.crossings ++
      [.departure (i.account.impulses.foldl i.tree.follow (.initial i.tree))]

/-! ### Before a passage -/

/-- From `i` to `j` host code that reacts to passages was not called, nor was anything put down for
it to see. -/
structure Poised (i j : Interpreter C) : Prop where
  machine : j.machine = i.machine
  context : j.context = i.context
  observers : j.observers = i.observers
  history : j.history = i.history
  lastEvent : j.lastEvent = i.lastEvent
  now : j.now = i.now
  log : ∀ {α : Type} (f : Entry C → Option α), Entry.Tells f → j.log f = i.log f

theorem Poised.refl (i : Interpreter C) : Poised i i :=
  ⟨rfl, rfl, rfl, rfl, rfl, rfl, fun _ _ => rfl⟩

theorem Poised.trans (hij : Poised i j) (hjk : Poised j k) : Poised i k where
  machine := hjk.machine.trans hij.machine
  context := hjk.context.trans hij.context
  observers := hjk.observers.trans hij.observers
  history := hjk.history.trans hij.history
  lastEvent := hjk.lastEvent.trans hij.lastEvent
  now := hjk.now.trans hij.now
  log f hf := (hjk.log f hf).trans (hij.log f hf)

theorem poised_note (i : Interpreter C) {e : Entry C} (he : e.isPassing = false) :
    Poised i (i.note e) where
  machine := rfl
  context := rfl
  observers := rfl
  history := rfl
  lastEvent := rfl
  now := rfl
  log f hf := by
    rw [log_note, hf e he]
    exact List.append_nil _

theorem Holds.poised (h : Holds i j) (hshell : j.shell = i.shell) : Poised i j := by
  have hsame := sameShell_of_shell hshell
  have hnow := congrArg Interpreter.now hshell
  refine ⟨hsame.machine, hsame.context, hsame.observers, hsame.history, hsame.lastEvent, hnow,
    fun f hf => ?_⟩
  obtain ⟨es, hwrites, hholding⟩ := h
  have hnone : es.filterMap f = [] := List.filterMap_eq_nil_iff.mpr fun e he =>
    hf e (Entry.isPassing_of_isHolding (hholding e he))
  rw [hwrites.log_eq fun e he => hf e (Entry.isPassing_of_isTraffic he), hnone, List.append_nil]

theorem poised_draw (i : Interpreter C) (e : Envelope) (rest : List Envelope) :
    Poised i (i.draw e rest) :=
  { i.poised_note (e := .dequeued e) rfl with }

theorem poised_shift (i : Interpreter C) (exit entry : List StateId) (c : Configuration)
    (status : Status) : Poised i (i.shift exit entry c status) := by
  have hleft : Poised i (i.leaveAll exit) :=
    (Holds.foldl holds_leave exit i).poised (shell_leaveAll i exit)
  have hmoved : Poised i { i.leaveAll exit with configuration := c, status } := { hleft with }
  exact hmoved.trans ((Holds.foldl holds_enter entry _).poised (shell_enterAll _ entry))

theorem poised_discard (i : Interpreter C) : Poised i i.discard :=
  { i.poised_note (e := .discarded i.queue.length) rfl with }

/-! ### Passages and what lies between -/

/-- From `i` to `j` a passage is made, and whoever cares gets to know of it. -/
structure Passes (i : Interpreter C) (p : Passage) (j : Interpreter C) : Prop where
  machine : j.machine = i.machine
  passages : j.passages = i.passages ++ [p]
  stage : i.status = p.stage
  status : j.status = p.status
  before : i.configuration = p.before
  after : j.configuration = p.after i.tree
  /-- The end of the active path is left, and another one is entered. -/
  splice : ∃ kept, i.configuration.states = kept ++ (p.step i.tree).exit.reverse ∧
    j.configuration.states = kept ++ (p.step i.tree).entry
  context : j.context = i.machine.carry p.occasion i.context (p.step i.tree).actions
  lastEvent : j.lastEvent = p.event?
  history : j.history = (p.record? i.tree i.now).elim i.history i.history.record
  observers : j.observers = i.observers
  entrances : j.entrances = i.entrances ++ (p.entered? i.tree).toList
  taken : j.taken = i.taken ++ (p.taken? i.tree).toList
  ran : j.ran = i.ran ++ (i.machine.attempted p.occasion i.context (p.step i.tree).actions).map
    fun a => (i.tree.actionName a, p.occasion.name)
  failures : j.failures = i.failures ++
    (i.machine.failure? p.occasion i.context (p.step i.tree).actions).toList.map
      fun f => (i.tree.actionName f.1, p.occasion.name, f.2.message)
  sightings : j.sightings = i.sightings ++ i.observers.map fun o => (o.1, j.snapshot)

/-- From `i` to `j` no passage is made, and nobody gets to know of anything. -/
structure Rests (i j : Interpreter C) : Prop where
  machine : j.machine = i.machine
  passages : j.passages = i.passages
  status : j.status = i.status
  configuration : j.configuration = i.configuration
  context : j.context = i.context
  lastEvent : j.lastEvent = i.lastEvent
  history : j.history = i.history
  log : ∀ {α : Type} (f : Entry C → Option α), Entry.Tells f → j.log f = i.log f

/-! ### The host reacts to a passage -/

/-- What is told when the host reacts. -/
theorem Poised.log_react (h : Poised i k) {e : Entry C} (he : e.isTraffic = false) (event : Event)
    (actions : List ActionId) (remember : Interpreter C → History) {α : Type}
    {f : Entry C → Option α} (hf : Entry.Tells f) :
    (k.react e event actions remember).1.log f = i.log f ++ ((f e).toList ++
      ((i.machine.attempted event i.context actions).filterMap fun a =>
        f (.ran (i.tree.actionName a) event.name)) ++
      ((i.machine.failure? event i.context actions).toList.filterMap fun x =>
        f (.ofFailure i.tree event x)) ++
      i.observers.filterMap fun o =>
        f (.observed o.1 (k.react e event actions remember).1.snapshot)) := by
  have htree : k.tree = i.tree := congrArg Machine.tree h.machine
  have hhead (l : List (Entry C)) : (e :: l).filterMap f = (f e).toList ++ l.filterMap f := by
    cases hfe : f e <;> simp [hfe]
  rw [(k.writes_reports he event actions remember).log_eq
    fun e he => hf e (Entry.isPassing_of_isTraffic he), h.log f hf, List.filterMap_append, hhead,
    reports, List.filterMap_append, List.filterMap_map, List.filterMap_map, List.filterMap_map,
    h.machine, h.context, h.observers, htree, List.append_assoc, List.append_assoc,
    List.append_assoc]
  rfl

/-- What there is to see of a reaction. -/
theorem Poised.react_memory (h : Poised i k) (e : Entry C) (event : Event)
    (actions : List ActionId) (remember : Interpreter C → History) :
    let j := (k.react e event actions remember).1
    j.context = i.machine.carry event i.context actions ∧ j.lastEvent = some event ∧
      j.observers = i.observers ∧
      ∃ acted : Interpreter C, j.history = remember acted ∧ acted.history = i.history ∧
        acted.configuration = k.configuration ∧ acted.now = i.now := by
  intro j
  let acted := ((k.note e).runActions event actions).1
  let known : Interpreter C := { acted with history := remember acted, lastEvent := some event }
  have hacted := sameBody_runActions event (k.note e) actions
  have hstill := still_runActions event (k.note e) actions k.context
  refine ⟨?_, (Interpreter.react_memory k e event actions remember).2, ?_, acted,
    (Interpreter.react_memory k e event actions remember).1, ?_, hacted.configuration, ?_⟩
  · rw [react_context, h.machine, h.context]
  · exact (untouched_notify known).observers.trans (hacted.observers.trans h.observers)
  · exact hacted.history.trans h.history
  · exact (congrArg Interpreter.now hstill).trans h.now

/-- **The host reacts to a passage** once the states have been left and entered. -/
theorem Poised.passes (h : Poised i k) {p : Passage} {e : Entry C} {event : Event}
    {remember : Interpreter C → History} (hstage : i.status = p.stage)
    (hbefore : i.configuration = p.before) (hafter : k.configuration = p.after i.tree)
    (hstatus : k.status = p.status)
    (hsplice : ∃ kept, i.configuration.states = kept ++ (p.step i.tree).exit.reverse ∧
      (p.after i.tree).states = kept ++ (p.step i.tree).entry)
    (hcue : e.isCue = true) (hstarted : e.started? = p.entered? i.tree)
    (htaken : e.taken? = p.taken? i.tree) (hevent : p.event? = some event)
    (hremember : ∀ acted : Interpreter C, acted.history = i.history →
      acted.configuration = p.after i.tree → acted.now = i.now →
      remember acted = (p.record? i.tree i.now).elim i.history i.history.record)
    (hpassages : ∀ j : Interpreter C, j = (k.react e event (p.step i.tree).actions remember).1 →
      j.machine = i.machine → j.status = p.status →
      j.entrances = i.entrances ++ (p.entered? i.tree).toList → j.passages = i.passages ++ [p]) :
    Passes i p (k.react e event (p.step i.tree).actions remember).1 := by
  obtain ⟨htraffic, hdeed, hran, hfailed, hobserved⟩ := Entry.of_isCue hcue
  have hoccasion : p.occasion = event := by rw [Passage.occasion, hevent, Option.getD_some]
  have halike := alike_react k hdeed event (p.step i.tree).actions remember
  obtain ⟨hcontext, hlast, hobservers, acted, hhistory, hkept, hconfiguration, hnow⟩ :=
    h.react_memory e event (p.step i.tree).actions remember
  have hlog {α : Type} {f : Entry C → Option α} (hf : Entry.Tells f) :=
    h.log_react htraffic event (p.step i.tree).actions remember hf
  have hentrances : (k.react e event (p.step i.tree).actions remember).1.entrances =
      i.entrances ++ (p.entered? i.tree).toList := by
    rw [entrances, hlog Entry.tells_started, hstarted]
    simp [Entry.started?, Entry.ofFailure, entrances]
  constructor
  case machine => exact halike.machine.trans h.machine
  case passages =>
    exact hpassages _ rfl (halike.machine.trans h.machine) (halike.status.trans hstatus) hentrances
  case stage => exact hstage
  case status => exact halike.status.trans hstatus
  case before => exact hbefore
  case after => exact halike.configuration.trans hafter
  case splice =>
    rw [halike.configuration, hafter]
    exact hsplice
  case context => rw [hcontext, hoccasion]
  case lastEvent => rw [hlast, hevent]
  case history => rw [hhistory, hremember acted hkept (hconfiguration.trans hafter) hnow]
  case observers => exact hobservers
  case entrances => exact hentrances
  case taken =>
    rw [taken, hlog Entry.tells_taken, htaken]
    simp [Entry.taken?, Entry.ofFailure, taken]
  case ran =>
    rw [ran, hlog Entry.tells_ran, hran, hoccasion]
    simp [Entry.ran?, Entry.ofFailure, ran]
  case failures =>
    rw [failures, hlog Entry.tells_failed, hfailed, hoccasion]
    simp [Entry.failed?, Entry.ofFailure, failures]
  case sightings =>
    rw [sightings, hlog Entry.tells_observed, hobserved]
    simp [Entry.observed?, Entry.ofFailure, sightings]

/-! ### The books of a run -/

variable {context : C}

/-- **The books of a run are right**, and they are empty before the start. -/
structure Chronicled (context : C) (i : Interpreter C) : Prop where
  coherent : i.Coherent
  refined : i.Refined context
  waiting : i.status = .notStarted → i.entrances = [] ∧ i.lastEvent = none
  entered : i.status = .running → i.entrances ≠ []

theorem chronicled_fresh {m : Machine C} (hm : m.tree.WellFormed) (context : C) (limit : Nat) :
    ((Interpreter.new m context).withHistoryLimit limit).Chronicled context where
  coherent := coherent_fresh hm context limit
  refined := refined_fresh m context limit
  waiting _ := ⟨rfl, rfl⟩
  entered := nofun

theorem passages_of_waiting (hs : i.status = .notStarted) : i.passages = [] := by
  simp only [passages, hs]

theorem passages_of_running (hs : i.status = .running) : i.passages = .entrance :: i.crossings := by
  simp only [passages, hs]

theorem passages_congr (hmachine : j.machine = i.machine) (hstatus : j.status = i.status)
    (hentrances : j.entrances = i.entrances)
    (himpulses : j.account.impulses = i.account.impulses) : j.passages = i.passages := by
  have htree : j.tree = i.tree := congrArg Machine.tree hmachine
  simp only [passages, crossings, hstatus, hentrances, himpulses, htree]

theorem Poised.rests (h : Poised i j) (hstatus : j.status = i.status)
    (hconfiguration : j.configuration = i.configuration) (hpassages : j.passages = i.passages) :
    Rests i j :=
  ⟨h.machine, hpassages, hstatus, hconfiguration, h.context, h.lastEvent, h.history, h.log⟩

theorem Poised.rests_of_impulses (h : Poised i j) (hstatus : j.status = i.status)
    (hconfiguration : j.configuration = i.configuration)
    (himpulses : j.account.impulses = i.account.impulses) : Rests i j :=
  h.rests hstatus hconfiguration
    (passages_congr h.machine hstatus (h.log _ Entry.tells_started) himpulses)

theorem Rests.refl (i : Interpreter C) : Rests i i :=
  (Poised.refl i).rests rfl rfl rfl

/-! ### One more passage -/

theorem Chronicled.passages_entrance (h : i.Chronicled context) (hs : i.status = .notStarted)
    (hstatus : j.status = .running) (himpulses : j.account.impulses = i.account.impulses) :
    j.passages = i.passages ++ [.entrance] := by
  rw [passages_of_waiting hs, passages_of_running hstatus, crossings, himpulses,
    (h.refined.waiting hs).1]
  rfl

/-- What the core makes of one more impulse is added at the end. -/
theorem Chronicled.passages_crossing (h : i.Chronicled context) (hs : i.status = .running)
    (hmachine : j.machine = i.machine) (hstatus : j.status = .running) {x : Impulse}
    {tr : Transition} (htr : x.transition? i.tree i.configuration = some tr)
    (himpulses : j.account.impulses = i.account.impulses ++ [x]) :
    j.passages = i.passages ++ [.crossing i.configuration tr x.occasion] := by
  have htree : j.tree = i.tree := congrArg Machine.tree hmachine
  rw [passages_of_running hs, passages_of_running hstatus, crossings, crossings, himpulses, htree,
    StateTree.crossings_append, ← h.refined.configuration hs, List.cons_append]
  simp [StateTree.crossings, htr]

theorem Chronicled.passages_departure (h : i.Chronicled context) (hs : i.status = .running)
    (hmachine : j.machine = i.machine) (hstatus : j.status = .stopped)
    (hentrances : j.entrances = i.entrances)
    (himpulses : j.account.impulses = i.account.impulses) :
    j.passages = i.passages ++ [.departure i.configuration] := by
  have htree : j.tree = i.tree := congrArg Machine.tree hmachine
  cases hentered : i.entrances with
  | nil => exact absurd hentered (h.entered hs)
  | cons value rest =>
    rw [hentered] at hentrances
    rw [passages_of_running hs, h.refined.configuration hs]
    simp only [passages, crossings, hstatus, hentrances, himpulses, htree]

theorem Chronicled.passages_abandonment (h : i.Chronicled context) (hs : i.status = .notStarted)
    (hstatus : j.status = .stopped) (hentrances : j.entrances = i.entrances) :
    j.passages = i.passages ++ [.abandonment] := by
  rw [(h.waiting hs).1] at hentrances
  rw [passages_of_waiting hs]
  simp only [passages, hstatus, hentrances, List.nil_append]

/-! ### Which passage is made -/

/-- **The start is the way in.** -/
theorem Chronicled.launch_passes (h : i.Chronicled context) (hs : i.status = .notStarted)
    (hd : i.dropped = false) : Passes i .entrance i.launch.1 := by
  let entered := i.shift [] (i.tree.initialPath i.tree.root) (.initial i.tree) .running
  have hempty : i.configuration = .empty := h.coherent.idle (by simp [hs])
  have himpulses := (h.refined.tracked hd).launch.impulses
  have hconfiguration : entered.configuration = .initial i.tree := shift_configuration ..
  have hvalue : entered.value = (Configuration.initial i.tree).value i.tree := by
    rw [value, hconfiguration, shift_tree]
  apply (poised_shift i [] (i.tree.initialPath i.tree.root) (.initial i.tree) .running).passes
  case hstage => exact hs
  case hbefore => exact hempty
  case hafter => exact hconfiguration
  case hstatus => exact shift_status ..
  case hsplice => exact ⟨[], by rw [hempty]; rfl, rfl⟩
  case hcue => rfl
  case hstarted => exact congrArg some hvalue
  case htaken => rfl
  case hevent => rfl
  case hremember => exact fun _ hhistory _ _ => hhistory
  case hpassages =>
    intro j hj _ hstatus _
    exact h.passages_entrance hs hstatus (hj ▸ himpulses)

/-- A transition is taken, after `k` has taken up what leads to it. -/
theorem Chronicled.crosses (h : i.Chronicled context) (hs : i.status = .running)
    (hik : Poised i k) (hstatus : k.status = i.status)
    (hconfiguration : k.configuration = i.configuration) {x : Impulse} {tr : Transition}
    (htr : x.transition? i.tree i.configuration = some tr)
    (htracked : k.Tracked (i.account.impulses ++ [x]))
    {kept : List StateId} {leaf : StateId}
    (hspliced : i.tree.Spliced i.configuration (i.tree.plan i.configuration tr) kept leaf) :
    Passes i (.crossing i.configuration tr x.occasion) (k.take tr x.occasion).1 := by
  have htree : k.tree = i.tree := congrArg Machine.tree hik.machine
  have himpulses := (htracked.take tr x.occasion).impulses
  have htake := take_eq k tr x.occasion
  simp only [shiftAlong, htree, hconfiguration, hstatus, StateTree.source_plan] at htake
  rw [htake] at himpulses ⊢
  apply (hik.trans (poised_shift k _ _ _ _)).passes
  case hstage => exact hs
  case hbefore => rfl
  case hafter => exact shift_configuration ..
  case hstatus => exact (shift_status ..).trans hs
  case hsplice => exact ⟨kept, hspliced.before, hspliced.after⟩
  case hcue => rfl
  case hstarted => rfl
  case htaken => rfl
  case hevent => rfl
  case hremember =>
    intro acted hhistory hconfiguration hnow
    rw [hhistory, hconfiguration, hnow]
    rfl
  case hpassages =>
    intro j hj hmachine hstatus _
    exact h.passages_crossing hs hmachine hstatus htr (hj ▸ himpulses)

/-- The machine is left, after `k` has taken up the request if there was one. -/
theorem Chronicled.departs (h : i.Chronicled context) (hs : i.status = .running)
    (hik : Poised i k) (hstatus : k.status = i.status)
    (hconfiguration : k.configuration = i.configuration)
    (htracked : k.Tracked i.account.impulses) :
    Passes i (.departure i.configuration) k.stop.1 := by
  have htree : k.tree = i.tree := congrArg Machine.tree hik.machine
  have himpulses := htracked.stop.impulses
  have hstop := stop_eq (hstatus.trans hs)
  simp only [hconfiguration, htree] at hstop
  rw [hstop] at himpulses ⊢
  apply ((hik.trans (poised_shift k _ _ _ _)).trans (poised_discard _)).passes
  case hstage => exact hs
  case hbefore => rfl
  case hafter => exact (alike_discard _).configuration.trans (shift_configuration ..)
  case hstatus => exact (alike_discard _).status.trans (shift_status ..)
  case hsplice => exact ⟨[], states_eq_innermostFirst _, rfl⟩
  case hcue => rfl
  case hstarted => rfl
  case htaken => rfl
  case hevent => rfl
  case hremember => exact fun _ hhistory _ _ => hhistory
  case hpassages =>
    intro j hj hmachine hstatus hentrances
    exact h.passages_departure hs hmachine hstatus (hentrances.trans (List.append_nil _))
      (hj ▸ himpulses)

/-- **A message that leads to a transition has it taken**, once. -/
theorem Chronicled.handle_passes (h : i.Chronicled context) (hs : i.status = .running)
    (hd : i.dropped = false) {e : Envelope} {tr : Transition} {event : Event}
    (hchoice : i.choice? e = some (tr, event)) (rest : List Envelope) :
    Passes i (.crossing i.configuration tr event) (i.handle e rest).1 := by
  obtain ⟨⟨s, hactive, hdeclared⟩, hhandle⟩ := h.coherent.handle_of_some hchoice rest
  obtain ⟨kept, leaf, hspliced⟩ := h.coherent.spliced hs hactive hdeclared
  obtain ⟨x, himpulse, htr, rfl⟩ := exists_impulse hchoice
  have hdrawn := (h.refined.tracked hd).draw e rest
  rw [(h.refined.tracked hd).impulse? h.coherent e, himpulse] at hdrawn
  rw [hhandle]
  exact h.crosses hs (poised_draw i e rest) rfl rfl htr hdrawn hspliced

/-- **A stop of a running machine is the way out.** -/
theorem Chronicled.stop_passes (h : i.Chronicled context) (hs : i.status = .running)
    (hd : i.dropped = false) : Passes i (.departure i.configuration) i.stop.1 :=
  h.departs hs (.refl i) rfl rfl (h.refined.tracked hd)

/-- So is the request to stop when it is reached in the queue. -/
theorem Chronicled.handle_stop_passes (h : i.Chronicled context) (hs : i.status = .running)
    (hd : i.dropped = false) (rest : List Envelope) :
    Passes i (.departure i.configuration) (i.handle .stop rest).1 := by
  have hdrawn := (h.refined.tracked hd).draw .stop rest
  rw [Account.impulse?, Option.toList_none, List.append_nil] at hdrawn
  rw [handle_stop]
  exact h.departs hs (poised_draw i .stop rest) rfl rfl hdrawn

/-- **A stop before the start gives the machine up.** No action is run. -/
theorem Chronicled.abandon_passes (h : i.Chronicled context) (hs : i.status = .notStarted) :
    Passes i .abandonment i.stop.1 := by
  let shut : Interpreter C := { i with status := .stopped }
  let known : Interpreter C := i.abandoned
  have hpoised : Poised i shut.discard := { poised_discard shut with }
  have hwrites : Writes shut.discard ([.stoppedUnstarted] ++
      i.observers.map fun o => .observed o.1 known.snapshot) known.notify :=
    (writes_note shut.discard rfl).trans (writes_notify known)
  have hlog {α : Type} {f : Entry C → Option α} (hf : Entry.Tells f) :
      known.notify.log f = i.log f ++ ((f .stoppedUnstarted).toList ++
        i.observers.filterMap fun o => f (.observed o.1 known.snapshot)) := by
    rw [hwrites.log_eq fun e he => hf e (Entry.isPassing_of_isTraffic he), hpoised.log f hf,
      List.filterMap_append, List.filterMap_map]
    cases hfe : f .stoppedUnstarted <;> simp [hfe]
  have hread {α : Type} (g : Interpreter C → α) (hg : ∀ l, g l.still = g l) :
      g known.notify = g known := by
    rw [← hg, still_notify, hg]
  have hstatus : known.notify.status = .stopped := hread Interpreter.status fun _ => rfl
  have hempty : i.configuration = .empty := h.coherent.idle (by simp [hs])
  have hconfiguration : known.notify.configuration = .empty :=
    (hread Interpreter.configuration fun _ => rfl).trans hempty
  have hentrances : known.notify.entrances = i.entrances := by
    rw [entrances, hlog Entry.tells_started]
    simp [Entry.started?, entrances]
  rw [stop_eq_of_notStarted hs]
  constructor
  case machine => exact hread Interpreter.machine fun _ => rfl
  case passages => exact h.passages_abandonment hs hstatus hentrances
  case stage => exact hs
  case status => exact hstatus
  case before => exact hempty
  case after => exact hconfiguration
  case splice => exact ⟨[], by rw [hempty]; rfl, by rw [hconfiguration]; rfl⟩
  case context => exact hread Interpreter.context fun _ => rfl
  case lastEvent => exact (hread Interpreter.lastEvent fun _ => rfl).trans (h.waiting hs).2
  case history => exact hread Interpreter.history fun _ => rfl
  case observers => exact hread Interpreter.observers fun _ => rfl
  case entrances => exact hentrances.trans (List.append_nil _).symm
  case taken =>
    rw [taken, hlog Entry.tells_taken]
    simp [Entry.taken?, taken, Passage.taken?]
  case ran =>
    rw [ran, hlog Entry.tells_ran]
    simp [Entry.ran?, ran, Passage.step, StateTree.halt, Configuration.innermostFirst,
      Configuration.empty, Machine.attempted]
  case failures =>
    rw [failures, hlog Entry.tells_failed]
    simp [Entry.failed?, failures, Passage.step, StateTree.halt, Configuration.innermostFirst,
      Configuration.empty, Machine.failure?]
  case sightings =>
    rw [sightings, hlog Entry.tells_observed, hread Interpreter.snapshot fun _ => rfl]
    simp [Entry.observed?, sightings]

/-! ### What is no passage -/

/-- **A message that leads to no transition makes no passage.** -/
theorem Chronicled.handle_rests (h : i.Chronicled context) (hs : i.status = .running)
    (hd : i.dropped = false) {e : Envelope} (he : e ≠ .stop) (hnone : i.choice? e = none)
    (rest : List Envelope) : Rests i (i.handle e rest).1 := by
  obtain ⟨n, hn, hhandle⟩ := h.coherent.handle_of_none he hnone rest
  have hdrawn := (h.refined.tracked hd).draw e rest
  rw [(h.refined.tracked hd).impulse? h.coherent e] at hdrawn
  have himpulses := (hdrawn.note fun _ => record_of_isDismissal hn _).impulses
  have hnothing : i.tree.crossings i.configuration (i.impulse? e).toList = [] := by
    cases himpulse : i.impulse? e with
    | none => rfl
    | some x =>
      simp [StateTree.crossings, transition?_eq_none hnone himpulse]
  have hpoised := (poised_draw i e rest).trans
    (poised_note (i.draw e rest) (Entry.isPassing_of_isDismissal hn))
  have hs' : ((i.draw e rest).note n).status = .running := hs
  rw [hhandle, ← h.coherent.draw_of_none hnone rest]
  refine hpoised.rests rfl rfl ?_
  rw [passages_of_running hs, passages_of_running hs', crossings, crossings, himpulses]
  show _ :: i.tree.crossings (.initial i.tree) _ = _
  rw [StateTree.crossings_append, ← h.refined.configuration hs, hnothing, List.append_nil]

/-- **To drop an interpreter is no passage**: no action is run and nobody is notified. -/
theorem Chronicled.drop_rests (h : i.Chronicled context) (hd : i.dropped = false) :
    Rests i i.drop := by
  have hstopped : Poised i (i.invocations.reverse.foldl stopInvocation i) :=
    (Holds.foldl holds_stopInvocation _ i).poised (foldl_unchanged shell shell_stopInvocation _ i)
  have hpoised : Poised i i.drop := by
    rw [drop_eq hd]
    exact { hstopped with }
  have hscene := sameScene_drop hd
  exact hpoised.rests_of_impulses hscene.status hscene.configuration
    ((h.refined.tracked hd).impulses_drop hd)

/-- A round in which something is noted, but no passage. -/
theorem rests_note (i : Interpreter C) {e : Entry C} (he : e.isPassing = false)
    (hidle : ∀ a, Account.record i.tree a e = a) : Rests i (i.note e) :=
  (i.poised_note he).rests_of_impulses rfl rfl
    (congrArg Account.impulses ((account_note i e).trans (hidle _)))

theorem rests_enqueue (i : Interpreter C) (e : Envelope) : Rests i (i.enqueue e) :=
  { i.rests_note (e := .enqueued e) rfl (fun _ => rfl) with }

/-- How passages come about: by the start, by a message that leads to a transition, by a stop, and
by the request to stop when it is reached in the queue. -/
inductive Makes (i : Interpreter C) : Passage → Interpreter C → Prop
  | start (hs : i.status = .notStarted) : Makes i .entrance i.launch.1
  | take (hs : i.status = .running) {e : Envelope} {rest : List Envelope} {tr : Transition}
      {event : Event} (hqueue : i.queue = e :: rest) (hchoice : i.choice? e = some (tr, event)) :
      Makes i (.crossing i.configuration tr event) (i.handle e rest).1
  | stop (hs : i.status = .running) : Makes i (.departure i.configuration) i.stop.1
  | request (hs : i.status = .running) {rest : List Envelope} (hqueue : i.queue = .stop :: rest) :
      Makes i (.departure i.configuration) (i.handle .stop rest).1
  | abandon (hs : i.status = .notStarted) : Makes i .abandonment i.stop.1

theorem Chronicled.passes (h : i.Chronicled context) (hd : i.dropped = false) {p : Passage}
    (hmakes : Makes i p j) : Passes i p j := by
  cases hmakes with
  | start hs => exact h.launch_passes hs hd
  | take hs hqueue hchoice => exact h.handle_passes hs hd hchoice _
  | stop hs => exact h.stop_passes hs hd
  | request hs hqueue => exact h.handle_stop_passes hs hd _
  | abandon hs => exact h.abandon_passes hs

/-- **In a round there is one passage or none.** -/
theorem Chronicled.rests_or_makes (h : i.Chronicled context) (hround : Round i j) :
    Rests i j ∨ i.dropped = false ∧ ∃ p, Makes i p j := by
  cases hround with
  | enqueue hd e => exact .inl (i.rests_enqueue e)
  | refuse hs event => exact .inl (i.rests_note rfl fun _ => rfl)
  | attend observers nextSubscription now => exact .inl { Rests.refl i with }
  | clock hs present => exact .inl { Rests.refl i with }
  | launch hs hd hclock => exact .inr ⟨hd, _, .start hs⟩
  | @handle hs hd e rest hqueue =>
    by_cases he : e = .stop
    · subst he
      exact .inr ⟨hd, _, .request hs hqueue⟩
    · cases hchoice : i.choice? e with
      | none => exact .inl (h.handle_rests hs hd he hchoice rest)
      | some choice => exact .inr ⟨hd, _, .take hs hqueue hchoice⟩
  | stop hd =>
    cases hs : i.status with
    | notStarted => exact .inr ⟨hd, _, .abandon hs⟩
    | running => exact .inr ⟨hd, _, .stop hs⟩
    | stopped =>
      rw [stop_eq_of_stopped hs]
      exact .inl (.refl i)
  | drop hd => exact .inl (h.drop_rests hd)

theorem Chronicled.rests_or_passes (h : i.Chronicled context) (hround : Round i j) :
    Rests i j ∨ ∃ p, Passes i p j :=
  (h.rests_or_makes hround).imp_right fun ⟨hd, p, hmakes⟩ => ⟨p, h.passes hd hmakes⟩

theorem Chronicled.round (h : i.Chronicled context) (hround : Round i j) :
    j.Chronicled context := by
  refine ⟨hround.coherent h.coherent, h.refined.round h.coherent hround, ?_, ?_⟩
  · intro hs
    rcases h.rests_or_passes hround with hrests | ⟨p, hpasses⟩
    · have hwaiting := h.waiting (hrests.status ▸ hs)
      exact ⟨(hrests.log _ Entry.tells_started).trans hwaiting.1, hrests.lastEvent.trans hwaiting.2⟩
    · have hstatus := hpasses.status.symm.trans hs
      cases p <;> exact nomatch hstatus
  · intro hs
    rcases h.rests_or_passes hround with hrests | ⟨p, hpasses⟩
    · have hentrances : j.entrances = i.entrances := hrests.log _ Entry.tells_started
      rw [hentrances]
      exact h.entered (hrests.status ▸ hs)
    · have hstage := hpasses.stage
      have hstatus := hpasses.status.symm.trans hs
      rw [hpasses.entrances]
      cases p with
      | entrance => simp [Passage.entered?]
      | crossing c tr event => simpa [Passage.entered?] using h.entered hstage
      | departure c => exact nomatch hstatus
      | abandonment => exact nomatch hstatus

theorem Chronicled.rounds (h : i.Chronicled context) (hrounds : Rounds i j) :
    j.Chronicled context := by
  induction hrounds with
  | refl => exact h
  | tail _ hround ih => exact ih.round hround

section Runs

variable {d : Definition} {host : Implementations C} {m : Machine C} {limit : Nat}

theorem chronicled_of_rounds (hm : Machine.build d host = .ok m)
    (h : Rounds ((Interpreter.new m context).withHistoryLimit limit) i) : i.Chronicled context :=
  (chronicled_fresh (Machine.wellFormed_of_build hm) context limit).rounds h

/-- **What all passages keep up holds throughout a run.** -/
theorem Rounds.of_passages (hm : Machine.build d host = .ok m) {P : Interpreter C → Prop}
    (hfresh : P ((Interpreter.new m context).withHistoryLimit limit))
    (hrests : ∀ i j, P i → Rests i j → P j) (hpasses : ∀ i p j, P i → Passes i p j → P j)
    (h : Rounds ((Interpreter.new m context).withHistoryLimit limit) i) : P i := by
  induction h with
  | refl => exact hfresh
  | tail hrounds hround ih =>
    rcases (chronicled_of_rounds hm hrounds).rests_or_passes hround with hrest | ⟨p, hpass⟩
    · exact hrests _ _ ih hrest
    · exact hpasses _ p _ ih hpass

end Runs

end Interpreter

end Statechart
