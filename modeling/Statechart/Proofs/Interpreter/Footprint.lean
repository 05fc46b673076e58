import Statechart.Proofs.Interpreter.Nesting
import Statechart.Proofs.Interpreter.Staleness
import Statechart.Proofs.Interpreter.Timers

/-!
# The footprint of a step

A transition leaves the states strictly below its domain and enters others there. What belongs to
the domain and to the states above it is left alone: it keeps its numbers and is neither stopped nor
started again. What belongs to the others is stopped, handles included, and what is entered gets new
numbers (`Footprint`). The root is not below any state, so its invocations are started once, at the
start, and run until the machine is stopped or dropped, whatever transitions are taken (`Rooted`).
-/

namespace Statechart

namespace Interpreter

variable {C : Type} {i j : Interpreter C} {w : List (Bracket Invocation)}

/-! ### Footprints -/

/-- What a step does to what is held. What belongs to the states that are kept stays as it is, apart
from the timer whose elapsed delay is processed. The rest is given up: invocations are stopped, each
with its handle, and timers are cancelled. The entered states get what they declare, under the next
numbers. -/
structure Footprint (i j : Interpreter C) (e : Envelope) (keeps : StateId → Bool)
    (entry : List StateId) : Prop where
  invocations : j.invocations = i.invocations.filter (fun v => keeps v.state) ++
    i.machine.invocationsFrom i.emitters.size entry
  timers : j.timers = i.timers.filter (fun t => keeps t.state && !e.isTimer t.id) ++
    i.tree.timersFrom i.nextTimer entry
  /-- What is given up is stopped, the latest first, and only then the others are started. -/
  services : j.services = i.services ++
    (i.invocations.filter fun v => !keeps v.state).reverse.flatMap Invocation.stopMarks ++
    (i.machine.invocationsFrom i.emitters.size entry).map Invocation.startMark
  /-- Each timer that is given up is cancelled once. -/
  cancelled : ∃ gone : List Timer,
    gone.Perm (i.timers.filter fun t => !keeps t.state && !e.isTimer t.id) ∧
    j.cancelled = i.cancelled ++ gone.map fun t => (t.id, t.state)
  armings : j.timings.filterMap Timing.number? = i.timings.filterMap Timing.number? ++
    (i.tree.timersFrom i.nextTimer entry).map fun t => t.id.number

/-- What is held belongs to active states, so it is only for them that it matters. -/
theorem Footprint.congr {e : Envelope} {keeps keeps' : StateId → Bool} {entry : List StateId}
    (h : Footprint i j e keeps entry) (hi : i.Coherent)
    (hkeeps : ∀ s ∈ i.configuration.states, keeps s = keeps' s) :
    Footprint i j e keeps' entry := by
  have hv : ∀ v ∈ i.invocations, keeps v.state = keeps' v.state := fun v hv =>
    hkeeps _ (hi.state_mem_of_invocation hv)
  have ht : ∀ t ∈ i.timers, keeps t.state = keeps' t.state := fun t ht => hkeeps _ (hi.state_mem ht)
  constructor
  · rw [h.invocations, List.filter_congr hv]
  · rw [h.timers, List.filter_congr fun t hmem => by rw [ht t hmem]]
  · rw [h.services, List.filter_congr fun v hmem => by rw [hv v hmem]]
  · obtain ⟨gone, hgone, hcancelled⟩ := h.cancelled
    refine ⟨gone, ?_, hcancelled⟩
    rwa [List.filter_congr fun t hmem => by rw [ht t hmem]] at hgone
  · exact h.armings

/-- The invocations that are stopped are those of the states that are left, the latest first. -/
theorem Coherent.leaving_eq_filter (hi : i.Coherent) (hd : i.dropped = false)
    {kept exit : List StateId} (hbefore : i.configuration.states = kept ++ exit.reverse) :
    i.leaving exit = (i.invocations.filter fun v => exit.contains v.state).reverse := by
  rw [← List.filter_reverse, hi.reverse_invocations hd hbefore, List.filter_append,
    List.filter_eq_self.mpr, List.filter_eq_nil_iff.mpr, List.append_nil]
  · intro v hv
    simpa using (List.mem_filter.mp (List.mem_reverse.mp hv)).2
  · intro v hv
    obtain ⟨s, hs, hv⟩ := List.mem_flatMap.mp hv
    obtain rfl : v.state = s := by simpa using (List.mem_filter.mp (List.mem_reverse.mp hv)).2
    simpa using hs

theorem services_draw (i : Interpreter C) (e : Envelope) (rest : List Envelope) :
    (i.draw e rest).services = i.services :=
  congrArg (List.filter Mark.isService) (i.marks_pull e rest)

/-- No timer is cancelled when a message is taken up. -/
theorem cancelled_draw (i : Interpreter C) (e : Envelope) (rest : List Envelope) :
    (i.draw e rest).cancelled = i.cancelled :=
  (log_note i (.dequeued e)).trans (List.append_nil _)

/-- No timer is armed when a message is taken up. -/
theorem armings_draw (i : Interpreter C) (e : Envelope) (rest : List Envelope) :
    (i.draw e rest).timings.filterMap Timing.number? = i.timings.filterMap Timing.number? := by
  have hlog : (i.draw e rest).timings = i.timings ++ [Entry.dequeued e].filterMap Timing.of? :=
    log_note i (.dequeued e)
  rw [hlog, List.filterMap_append]
  cases e <;> simp [Timing.of?, Timing.number?]

/-- **A transition leaves alone what it does not exit.** -/
theorem Coherent.handle_footprint (hi : i.Coherent) (hs : i.status = .running)
    (hd : i.dropped = false) {e : Envelope} {tr : Transition} {event : Event}
    (hchoice : i.choice? e = some (tr, event)) (rest : List Envelope) :
    Footprint i (i.handle e rest).1 e
      (fun s => !(i.tree.plan i.configuration tr).exit.contains s)
      (i.tree.plan i.configuration tr).entry := by
  obtain ⟨⟨s, hactive, htr⟩, hhandle⟩ := hi.handle_of_some hchoice rest
  obtain ⟨kept, leaf, hspliced⟩ := hi.spliced hs hactive htr
  have he : e ≠ .stop := by
    rintro rfl
    exact nomatch hchoice
  have hstep : i.stepOf? e = some (i.tree.plan i.configuration tr) := by
    rw [stepOf?_eq he, hchoice, Option.map_some]
  have hshifted := hi.handle_shifted hs hstep rest
  have hdrawn := hi.draw e rest
  have hclock : (i.draw e rest).Clocked := hi.clocked hs
  have hexit := nodup_exit (hspliced.before ▸ hi.nodup)
  constructor
  case invocations => exact hshifted.invocations
  case timers =>
    rw [hshifted.timers]
    simp only [Interpreter.draw, List.filter_filter]
    rfl
  case services =>
    have hservices := hdrawn.numbered.services_shift hclock hexit
      (i.tree.plan i.configuration tr).entry (i.tree.plan i.configuration tr).configuration i.status
    rw [brackets, List.flatMap_append, Bracket.marks_closes, Bracket.marks_opens, services_draw,
      ← List.append_assoc] at hservices
    rw [hhandle, take_eq, (alike_react _ rfl _ _ _).services]
    refine hservices.trans ?_
    simp only [Bool.not_not]
    rw [← hi.leaving_eq_filter hd hspliced.before]
    rfl
  case cancelled =>
    have hcancelled := hdrawn.numbered.cancelled_shift hexit (i.tree.plan i.configuration tr).entry
      (i.tree.plan i.configuration tr).configuration i.status
    refine ⟨(i.draw e rest).lapsing (i.tree.plan i.configuration tr).exit, ?_, ?_⟩
    · have hperm := (i.draw e rest).lapsing_perm hexit
      simp only [Interpreter.draw, List.filter_filter] at hperm
      simp only [Bool.not_not]
      exact hperm
    · rw [hhandle, take_eq, (alike_react _ rfl _ _ _).cancelled, ← i.cancelled_draw e rest]
      exact hcancelled
  case armings =>
    rw [hhandle, timings_take hdrawn.numbered hclock, List.filterMap_append, armings_draw,
      number?_map_ofTimer]
    rfl

/-- Without a target nothing is given up, and nothing is new. -/
theorem Coherent.footprint_of_targetless (hi : i.Coherent) (hs : i.status = .running)
    (hd : i.dropped = false) {e : Envelope} {tr : Transition} {event : Event}
    (hchoice : i.choice? e = some (tr, event)) (rest : List Envelope) (hg : tr.target = none) :
    Footprint i (i.handle e rest).1 e (fun _ => true) [] := by
  have hfootprint := hi.handle_footprint hs hd hchoice rest
  have hentry : (i.tree.plan i.configuration tr).entry = [] := by simp [StateTree.plan, hg]
  have hexit : (i.tree.plan i.configuration tr).exit = [] := by simp [StateTree.plan, hg]
  rw [hentry, hexit] at hfootprint
  exact hfootprint.congr hi fun _ _ => rfl

/-- **With a target, the domain and what is above it are left alone.** -/
theorem Coherent.footprint_of_target (hi : i.Coherent) (hs : i.status = .running)
    (hd : i.dropped = false) {e : Envelope} {tr : Transition} {event : Event}
    (hchoice : i.choice? e = some (tr, event)) (rest : List Envelope) {g : StateId}
    (hg : tr.target = some g) :
    Footprint i (i.handle e rest).1 e
      (fun s => (i.tree.ancestors (i.tree.domain tr.source g)).contains s)
      (i.tree.plan i.configuration tr).entry := by
  obtain ⟨⟨s, hactive, htr⟩, -⟩ := hi.handle_of_some hchoice rest
  obtain ⟨leaf, hleaf⟩ := hi.running hs
  refine (hi.handle_footprint hs hd hchoice rest).congr hi fun a ha => ?_
  have hleft := hi.tree.mem_exit_iff hleaf hactive htr hg ha
  rw [Bool.eq_iff_iff]
  simp only [Bool.not_eq_true', List.contains_eq_mem, decide_eq_false_iff_not, hleft,
    Classical.not_not, decide_eq_true_eq]

/-! ### The root -/

theorem filter_invocationsFrom_self (m : Machine C) (next : Nat) (s : StateId) :
    ((m.invocationsFrom next [s]).filter fun v => v.state == s) = m.invocationsFrom next [s] :=
  List.filter_eq_self.mpr fun _ hv =>
    beq_iff_eq.mpr (List.mem_singleton.mp (state_mem_of_invocationsFrom hv))

theorem filter_invocationsFrom_other (m : Machine C) (next : Nat) {s : StateId}
    {states : List StateId} (hs : s ∉ states) :
    ((m.invocationsFrom next states).filter fun v => v.state == s) = [] :=
  List.filter_eq_nil_iff.mpr fun _ hv hstate =>
    hs (beq_iff_eq.mp hstate ▸ state_mem_of_invocationsFrom hv)

/-- **The invocations of the root**: before the start there are none, and while the machine runs
they are the first ones that were started. -/
structure Rooted (i : Interpreter C) : Prop where
  unstarted : i.status = .notStarted → i.services = []
  held : i.status = .running → i.dropped = false →
    (i.invocations.filter fun v => v.state == i.tree.root) =
      i.machine.invocationsFrom 0 [i.tree.root]

theorem Rooted.of_eq (h : i.Rooted) (hmachine : j.machine = i.machine)
    (hstatus : j.status = i.status) (hservices : j.services = i.services)
    (hinvocations : j.invocations = i.invocations) (hdropped : j.dropped = i.dropped) :
    j.Rooted := by
  constructor
  · rw [hstatus, hservices]
    exact h.unstarted
  · rw [hstatus, hdropped, hinvocations, tree, hmachine]
    exact h.held

/-- A shift of other states leaves the invocations of the root alone. -/
theorem Rooted.shift (h : i.Rooted) (hi : i.Coherent) (hs : i.status = .running)
    {exit entry : List StateId} (hexit : i.tree.root ∉ exit) (hentry : i.tree.root ∉ entry)
    (c : Configuration) : (i.shift exit entry c i.status).Rooted := by
  have hv := (hi.numbered.shift_holdings (hi.clocked hs) exit entry c i.status).invocations_eq
  have hold : ((i.invocations.filter fun v => !exit.contains v.state).filter
      fun v => v.state == i.tree.root) = i.invocations.filter fun v => v.state == i.tree.root := by
    rw [List.filter_filter]
    apply List.filter_congr
    intro v _
    by_cases hv : v.state = i.tree.root
    · simp [hv, hexit]
    · simp [hv]
  have hnew := filter_invocationsFrom_other i.machine i.emitters.size hentry
  constructor
  case unstarted => simp [hs]
  case held =>
    intro _ hd
    rw [shift_dropped] at hd
    rw [shift_tree, shift_machine, hv, List.filter_append, hold, hnew, List.append_nil,
      h.held hs hd]

theorem Rooted.shiftAlong (h : i.Rooted) (hi : i.Coherent) (hs : i.status = .running) {s : StateId}
    {tr : Transition} (hactive : s ∈ i.configuration.states) (htr : tr ∈ (i.tree.node s).declared) :
    (i.shiftAlong tr).Rooted := by
  obtain ⟨leaf, hleaf⟩ := hi.running hs
  obtain ⟨hexit, hentry⟩ := hi.tree.root_not_mem_plan hleaf hactive htr
  exact h.shift hi hs hexit hentry _

theorem Rooted.expire (h : i.Rooted) (id : TimerId) : (i.expire id).Rooted :=
  h.of_eq rfl rfl (services_note _ rfl) rfl rfl

theorem Rooted.size_eq_zero (h : i.Rooted) (hserved : i.Served w)
    (hs : i.status = .notStarted) : i.emitters.size = 0 := by
  have hnothing : w.flatMap Bracket.marks = [] := hserved.services.symm.trans (h.unstarted hs)
  have hopened : Bracket.opened w = [] := by
    refine List.eq_nil_iff_forall_not_mem.mpr fun v hv => ?_
    have hmark : v.startMark ∈ w.flatMap Bracket.marks :=
      List.mem_flatMap.mpr ⟨.opens v, Bracket.mem_opened.mp hv, List.mem_singleton.mpr rfl⟩
    rw [hnothing] at hmark
    exact nomatch hmark
  have hnumbers := congrArg List.length hserved.numbers
  rw [hopened, List.map_nil, List.length_map, List.length_range] at hnumbers
  exact hnumbers.symm

/-- At the start the root is entered first. -/
theorem Rooted.launch (h : i.Rooted) (hi : i.Coherent)
    (hserved : i.Served w) (hs : i.status = .notStarted) (hclock : i.Clocked) :
    (i.shift [] (i.tree.initialPath i.tree.root) (.initial i.tree) .running).Rooted := by
  have hv := (hi.numbered.shift_holdings hclock [] (i.tree.initialPath i.tree.root)
    (.initial i.tree) .running).invocations_eq
  have hnothing : i.invocations = [] := (hi.nothing_held (by simp [hs])).2.1
  have hsize := h.size_eq_zero hserved hs
  obtain ⟨below, hbelow⟩ := hi.tree.exists_initialPath i.tree.root
  have hnodup : (i.tree.root :: below).Nodup :=
    hbelow ▸ (hi.tree.isPath_of_endsAt hi.tree.endsAt_initial).nodup
  have happend := invocationsFrom_append i.machine 0 [i.tree.root] below
  have hothers := filter_invocationsFrom_other i.machine
    (0 + (i.machine.tree.invokes [i.tree.root]).length) (List.nodup_cons.mp hnodup).1
  constructor
  case unstarted => simp
  case held =>
    intro _ _
    rw [shift_tree, shift_machine, hv, hnothing, hsize, hbelow, ← List.singleton_append, happend,
      List.filter_nil, List.nil_append, List.filter_append, filter_invocationsFrom_self, hothers,
      List.append_nil]

theorem Rooted.move (h : i.Rooted) (hi : i.Coherent)
    (hserved : i.Served w) (hmove : Move i j) : j.Rooted := by
  cases hmove with
  | aside hij =>
    exact h.of_eq hij.machine hij.status hij.services hij.invocations hij.dropped
  | clock hs present => exact ⟨h.unstarted, h.held⟩
  | launch hs hd hclock => exact h.launch hi hserved hs hclock
  | take hs hd hactive htr => exact h.shiftAlong hi hs hactive htr
  | late hs hd hid =>
    exact h.of_eq rfl rfl ((services_note _ rfl).trans (services_note i rfl)) rfl rfl
  | ring hs hd ht hactive hdelay =>
    exact (h.expire _).shiftAlong (hi.expire _) hs hactive (mem_declared_of_after hdelay)
  | lapse hs hd ht hvoid => exact h.expire _
  | halt hs hd => exact ⟨by simp, by simp⟩
  | refrain hs hd => exact ⟨nofun, nofun⟩

theorem Reachable.rooted {d : Definition} {host : Implementations C} {m : Machine C}
    (hm : Machine.build d host = .ok m) (hi : Reachable m i) : i.Rooted := by
  have hboth : (∃ w, i.Served w) ∧ i.Rooted := by
    refine Reachable.invariant_of_coherent hm
      (P := fun i => (∃ w, i.Served w) ∧ i.Rooted) ?_ ?_ ?_ hi
    · intro context limit
      exact ⟨⟨[], served_fresh⟩, fun _ => rfl, nofun⟩
    · rintro i j hi ⟨⟨w, hserved⟩, h⟩ hmove
      obtain ⟨x, hnext⟩ := hserved.move hi hmove
      exact ⟨⟨w ++ x, hnext⟩, h.move hi hserved hmove⟩
    · rintro i hi ⟨⟨w, hserved⟩, h⟩ hd
      refine ⟨⟨_, hserved.drop hd⟩, fun hs => ?_, fun _ hkept => ?_⟩
      · rw [(sameScene_drop hd).status] at hs
        have hnothing := (hi.nothing_held (by simp [hs])).2.1
        rw [services, marks_drop hd, hnothing, List.reverse_nil, List.flatMap_nil, List.append_nil]
        exact h.unstarted hs
      · rw [dropped_drop] at hkept
        cases hkept
  exact hboth.2

/-! ### The whole run -/

/-- The next numbers have not been given out. -/
theorem Served.not_started (h : i.Served w) {states : List StateId} {v : Invocation}
    (hv : v ∈ i.machine.invocationsFrom i.emitters.size states) :
    (i.services.filter fun x => x.started? == some v.origin) = [] := by
  have hnone : (Bracket.opened w).filter (fun u => u.origin == v.origin) = [] := by
    refine List.filter_eq_nil_iff.mpr fun u hu heq => ?_
    have hmem : u.origin ∈ (List.range i.emitters.size).map InvocationId.mk :=
      h.numbers ▸ List.mem_map_of_mem hu
    rw [beq_iff_eq.mp heq] at hmem
    obtain ⟨n, hn, hnumber⟩ := List.mem_map.mp hmem
    have hle := le_number_of_mem hv
    rw [← hnumber] at hle
    exact Nat.not_lt.mpr hle (List.mem_range.mp hn)
  rw [h.services, Bracket.filter_started, hnone]
  rfl

theorem Ledger.number_not_mem (h : i.Ledger) {states : List StateId} {t : Timer}
    (ht : t ∈ i.tree.timersFrom i.nextTimer states) :
    t.id.number ∉ i.timings.filterMap Timing.number? := by
  rw [h.numbers, List.mem_range]
  exact Nat.not_lt.mpr (le_number_of_mem_timers ht)

theorem Coherent.services_launch (hi : i.Coherent) (hclock : i.Clocked) :
    i.launch.1.services = i.services ++
      (i.entering (i.tree.initialPath i.tree.root)).map Invocation.startMark := by
  have hservices := hi.numbered.services_shift hclock List.nodup_nil
    (i.tree.initialPath i.tree.root) (.initial i.tree) .running
  have hbrackets : i.brackets [] (i.tree.initialPath i.tree.root) =
      (i.entering (i.tree.initialPath i.tree.root)).map .opens := rfl
  rw [hbrackets, Bracket.marks_opens] at hservices
  rw [launch, (alike_react _ rfl _ _ _).services]
  exact hservices

/-- **The footprint of a step.** A message that leads to a transition with a target leaves alone
what belongs to the domain and the states above it, except for its own timer. What belongs to the
active states below the domain is given up, and the states that are entered, all below the domain,
get what they declare, under numbers never given out before. A transition without a target leaves
all alone but for the timer that led to it. What is held belongs to active states. The invocations
of the root are started first, each once, and are not stopped as long as the machine runs. -/
theorem Reachable.footprint {d : Definition} {host : Implementations C} {m : Machine C}
    (hm : Machine.build d host = .ok m) (hi : Reachable m i) (hd : i.dropped = false) :
    (i.status = .running → ∀ e rest tr event, i.choice? e = some (tr, event) →
      (tr.target = none → Footprint i (i.handle e rest).1 e (fun _ => true) []) ∧
      ∀ g, tr.target = some g →
        let domain := m.tree.domain tr.source g
        let entry := (m.tree.plan i.configuration tr).entry
        Footprint i (i.handle e rest).1 e (fun s => (m.tree.ancestors domain).contains s) entry ∧
        (∀ s ∈ i.configuration.states, m.tree.Below domain s ↔ s ∉ m.tree.ancestors domain) ∧
        (∀ s ∈ entry, m.tree.Below domain s) ∧ m.tree.root ∈ m.tree.ancestors domain) ∧
    ((∀ v ∈ i.invocations, v.state ∈ i.configuration.states) ∧
      ∀ t ∈ i.timers, t.state ∈ i.configuration.states) ∧
    (∀ states,
      (∀ v ∈ m.invocationsFrom i.emitters.size states,
        (i.services.filter fun x => x.started? == some v.origin) = []) ∧
      ∀ t ∈ m.tree.timersFrom i.nextTimer states,
        t.id.number ∉ i.timings.filterMap Timing.number?) ∧
    (i.status = .notStarted → i.services = [] ∧ (i.Clocked → i.launch.1.services =
      (m.invocationsFrom 0 (m.tree.initialPath m.tree.root)).map Invocation.startMark)) ∧
    (i.status = .running →
      (i.invocations.filter fun v => v.state == m.tree.root) = m.invocationsFrom 0 [m.tree.root] ∧
      ∀ v ∈ m.invocationsFrom 0 [m.tree.root],
        (i.services.filter fun x => x.started? == some v.origin) = [v.startMark] ∧
        (i.services.filter fun x => x.ended? == some v.origin) = []) := by
  have hcoherent := hi.coherent hm
  obtain ⟨w, hserved⟩ := hi.served hm
  have hledger := hi.ledger hm
  have hrooted := hi.rooted hm
  have hmachine : i.machine = m := hi.machine
  have htree : i.tree = m.tree := congrArg Machine.tree hmachine
  rw [← htree, ← hmachine]
  refine ⟨?_, ⟨fun v => hcoherent.state_mem_of_invocation, fun t => hcoherent.state_mem⟩,
    fun states => ⟨fun v => hserved.not_started, fun t => hledger.number_not_mem⟩, ?_, ?_⟩
  · intro hs e rest tr event hchoice
    refine ⟨hcoherent.footprint_of_targetless hs hd hchoice rest, fun g hg => ?_⟩
    intro domain entry
    obtain ⟨⟨s, hactive, htr⟩, -⟩ := hcoherent.handle_of_some hchoice rest
    obtain ⟨leaf, hleaf⟩ := hcoherent.running hs
    have ht := hcoherent.tree
    have hdomain := ht.domain_active hleaf hactive htr hg
    exact ⟨hcoherent.footprint_of_target hs hd hchoice rest hg,
      fun a ha => ht.below_iff hleaf hdomain ha,
      fun a => ht.below_of_mem_entry hleaf hactive htr hg,
      ht.root_mem_ancestors ((ht.isPath_of_endsAt hleaf).known _ hdomain)⟩
  · intro hs
    have hnone := hrooted.unstarted hs
    refine ⟨hnone, fun hclock => ?_⟩
    rw [hcoherent.services_launch hclock, hnone, entering, hrooted.size_eq_zero hserved hs]
    rfl
  · intro hs
    have hheld := hrooted.held hs hd
    refine ⟨hheld, fun v hv => ?_⟩
    have hruns : v ∈ i.invocations := List.mem_of_mem_filter (hheld ▸ hv)
    have hopened : v ∈ Bracket.opened w :=
      hserved.perm.mem_iff.mpr (List.mem_append_left _ (List.mem_reverse.mpr hruns))
    exact ⟨hserved.started hopened, hserved.not_ended hruns⟩

end Interpreter

/-! ### A fountain -/

/-- A fountain, whose pump runs all the time and whose light only while it is spraying. -/
def fountain : Definition := .ofRoot <| Draft.toDef <|
  ((((Draft.new "fountain").initial "still").invoke "pump").on "reset" (.goto "#fountain")).state
    ((Draft.new "still").on "spray" (.goto "spraying")) |>.state
      (((Draft.new "spraying").after (.ofMillis 50) (.goto "still")).invoke "light")

/-- The host of a fountain. The light is a task that ends when it is stopped. -/
def fountainHost : Implementations Nat :=
  (Implementations.none.service "pump" .idle).service "light" fun _ =>
    ⟨[], some ⟨100, .named "flash", 5⟩, .new .abort⟩

def fountainMachine : Machine Nat := .built fountain fountainHost

theorem build_fountain : Machine.build fountain fountainHost = .ok fountainMachine :=
  Machine.build_built rfl

/-- A fountain that is spraying. -/
def fountainSpraying : Interpreter Nat :=
  (((Interpreter.new fountainMachine 0).withHistoryLimit 10).perform (.start 1)).perform
    (.send 1 (.named "spray"))

theorem reachable_fountainSpraying :
    Interpreter.Reachable fountainMachine fountainSpraying :=
  .call (.call (.fresh 0 10) _) _

/-- When the fountain is reset as a whole, the light goes off and its timer is cancelled, but the
pump goes on. -/
theorem fountainSpraying_footprint :
    let reset : Envelope := .event (.named "reset") none
    let root := fountainMachine.tree.root
    fountainSpraying.status = .running ∧ fountainSpraying.dropped = false ∧
    (∃ tr event, fountainSpraying.choice? reset = some (tr, event) ∧ tr.target = some root ∧
      Interpreter.Footprint fountainSpraying (fountainSpraying.handle reset []).1 reset
        (fun s => (fountainMachine.tree.ancestors
          (fountainMachine.tree.domain tr.source root)).contains s)
        (fountainMachine.tree.plan fountainSpraying.configuration tr).entry) ∧
    (fountainSpraying.handle reset []).1.services =
      [.start "pump" ⟨0⟩, .start "light" ⟨1⟩, .stop ⟨1⟩ "light", .aborted ⟨1⟩] ∧
    (fountainSpraying.handle reset []).1.cancelled = [(⟨0⟩, ⟨1⟩)] ∧
    ∀ v ∈ fountainMachine.invocationsFrom 0 [root],
      (fountainSpraying.services.filter fun x => x.ended? == some v.origin) = [] := by
  intro reset root
  have hrunning : fountainSpraying.status = .running := by decide +kernel
  have hthere : fountainSpraying.dropped = false := by decide +kernel
  have hleads : (fountainSpraying.choice? reset).map (fun c => c.1.target) = some (some root) := by
    decide +kernel
  obtain ⟨⟨tr, event⟩, hchoice, htarget⟩ := Option.map_eq_some_iff.mp hleads
  obtain ⟨hstep, -, -, -, hroot⟩ :=
    Interpreter.Reachable.footprint build_fountain reachable_fountainSpraying hthere
  exact ⟨hrunning, hthere, ⟨tr, event, hchoice, htarget,
    ((hstep hrunning reset [] tr event hchoice).2 root htarget).1⟩, by decide +kernel,
    by decide +kernel, fun v hv => ((hroot hrunning).2 v hv).2⟩

end Statechart
