import Statechart.Proofs.Interpreter.Lifecycle
import Statechart.Proofs.Interpreter.Marks

/-!
# Services are nested

The runs of services are brackets around invocations. One opens when the service is called, and
closes when the invocation is stopped, which stops its handle too (`Bracket.marks`). They are nested
(`Served`), because a step leaves the end of the active path, innermost state first, and the
invocations of the path were started from the root down. Whatever way a run ends, by a stop or by a
drop, the brackets are closed, and each handle was stopped once (`Reachable.well_nested`).
-/

namespace Statechart

/-! ### Invocations by states -/

namespace StateTree

variable {t : StateTree} {states : List StateId}

/-- What it means to stop: all active states are left. -/
def halt (t : StateTree) (c : Configuration) : Step where
  source := t.root
  domain := t.root
  exit := c.innermostFirst
  entry := []
  actions := c.innermostFirst.flatMap fun s => (t.node s).exit
  configuration := .empty

/-- What it means to start: the states down to the first leaf are entered. -/
def opening (t : StateTree) : Step where
  source := t.root
  domain := t.root
  exit := []
  entry := t.initialPath t.root
  actions := (t.initialPath t.root).flatMap fun s => (t.node s).entry
  configuration := .initial t

theorem state_mem_of_invokeKeys {k : StateId × String} (h : k ∈ t.invokeKeys states) :
    k.1 ∈ states := by
  simp only [invokeKeys, invokes, List.mem_map, List.mem_flatMap] at h
  obtain ⟨_, ⟨s, hs, v, _, rfl⟩, rfl⟩ := h
  exact hs

/-- Invocations that follow the order of their states can be collected state by state. -/
theorem flatMap_filter_state (hnodup : states.Nodup) {l : List Invocation}
    (hkeys : l.map Invocation.key = t.invokeKeys states) :
    (states.flatMap fun s => l.filter fun v => v.state == s) = l := by
  induction states generalizing l with
  | nil => exact (List.map_eq_nil_iff.mp hkeys).symm
  | cons s rest ih =>
    obtain ⟨hs, hrest⟩ := List.nodup_cons.mp hnodup
    rw [← List.singleton_append, invokeKeys_append, List.map_eq_append_iff] at hkeys
    obtain ⟨a, b, rfl, ha, hb⟩ := hkeys
    have hstate_a : ∀ v ∈ a, v.state = s := by
      intro v hv
      have hmem : v.key ∈ t.invokeKeys [s] := ha ▸ List.mem_map_of_mem hv
      exact List.mem_singleton.mp (state_mem_of_invokeKeys hmem)
    have hstate_b : ∀ v ∈ b, v.state ∈ rest := by
      intro v hv
      have hmem : v.key ∈ t.invokeKeys rest := hb ▸ List.mem_map_of_mem hv
      exact state_mem_of_invokeKeys hmem
    have hfirst : ((a ++ b).filter fun v => v.state == s) = a := by
      have hnone : (b.filter fun v => v.state == s) = [] := by
        rw [List.filter_eq_nil_iff]
        intro v hv
        have hne : v.state ≠ s := fun heq => hs (heq ▸ hstate_b v hv)
        simpa using hne
      rw [List.filter_append, hnone, List.append_nil]
      exact List.filter_eq_self.mpr fun v hv => beq_iff_eq.mpr (hstate_a v hv)
    have hothers : (rest.flatMap fun r => (a ++ b).filter fun v => v.state == r) = b := by
      rw [← ih hrest hb]
      apply List.flatMap_congr
      intro r hr
      have hne : s ≠ r := by
        rintro rfl
        exact hs hr
      have hnone : (a.filter fun v => v.state == r) = [] := by
        rw [List.filter_eq_nil_iff]
        intro v hv
        simpa [hstate_a v hv] using hne
      rw [List.filter_append, hnone, List.nil_append, ih hrest hb]
    rw [List.flatMap_cons, hfirst, hothers]

end StateTree

namespace Interpreter

variable {C : Type} {i j : Interpreter C}

theorem state_mem_of_invocationsFrom {m : Machine C} {next : Nat} {states : List StateId}
    {v : Invocation} (hv : v ∈ m.invocationsFrom next states) : v.state ∈ states := by
  have hkey : v.key ∈ m.tree.invokeKeys states := by
    rw [← key_invocationsFrom]
    exact List.mem_map_of_mem hv
  exact StateTree.state_mem_of_invokeKeys hkey

theorem exists_of_mem_invocationsFrom {m : Machine C} {next : Nat} {states : List StateId}
    {v : Invocation} (hv : v ∈ m.invocationsFrom next states) :
    ∃ x ∈ (m.tree.node v.state).invoke, v = m.invocation v.origin.number v.state x := by
  obtain ⟨⟨⟨s, x⟩, n⟩, hmem, rfl⟩ := List.mem_map.mp hv
  obtain ⟨r, -, hx⟩ := List.mem_flatMap.mp (List.fst_mem_of_mem_zipIdx hmem)
  obtain ⟨_, hx, heq⟩ := List.mem_map.mp hx
  cases heq
  exact ⟨x, hx, rfl⟩

/-- The invocations of the states that are left are the latest ones. -/
theorem Coherent.reverse_invocations (hi : i.Coherent) (hd : i.dropped = false)
    {kept exit : List StateId} (hbefore : i.configuration.states = kept ++ exit.reverse) :
    i.invocations.reverse =
      i.leaving exit ++ (i.invocations.filter fun v => !exit.contains v.state).reverse := by
  have hnodup := hi.nodup
  have hgrouped := StateTree.flatMap_filter_state hnodup (hi.invocations hd)
  rw [hbefore] at hnodup
  rw [hbefore, List.flatMap_append] at hgrouped
  have hexit :
      (exit.reverse.flatMap fun s => i.invocations.filter fun v => v.state == s).reverse =
      i.leaving exit := by
    rw [List.reverse_flatMap, List.reverse_reverse]
    rfl
  -- The invocations of the states that stay are those that do not belong to the others.
  have hkept : (kept.flatMap fun s => i.invocations.filter fun v => v.state == s) =
      i.invocations.filter fun v => !exit.contains v.state := by
    conv_rhs => rw [← hgrouped]
    rw [List.filter_append, List.filter_eq_self.mpr, List.filter_eq_nil_iff.mpr, List.append_nil]
    · intro v hv
      obtain ⟨s, hs, hv⟩ := List.mem_flatMap.mp hv
      obtain rfl : v.state = s := by simpa using (List.mem_filter.mp hv).2
      simpa using hs
    · intro v hv
      obtain ⟨s, hs, hv⟩ := List.mem_flatMap.mp hv
      obtain rfl : v.state = s := by simpa using (List.mem_filter.mp hv).2
      have hexit : v.state ∉ exit := not_mem_exit hnodup hs
      simpa using hexit
  rw [← hexit, ← hkept, ← List.reverse_append, hgrouped]

/-! ### Brackets around invocations -/

/-- The brackets that close as states are left, and those that open as others are entered. -/
def brackets (i : Interpreter C) (exit entry : List StateId) : List (Bracket Invocation) :=
  (i.leaving exit).map .closes ++ (i.entering entry).map .opens

/-- **Services are nested**, as the word says. What it leaves open runs. Each number was given to
one invocation, and its handle was made by the service when it was called. -/
structure Served (i : Interpreter C) (w : List (Bracket Invocation)) : Prop where
  services : i.services = w.flatMap Bracket.marks
  nests : Bracket.Nests [] w i.invocations.reverse
  numbers : (Bracket.opened w).map Invocation.origin =
    (List.range i.emitters.size).map InvocationId.mk
  handles : ∀ v ∈ Bracket.opened w, ∃ x ∈ (i.tree.node v.state).invoke,
    v = i.machine.invocation v.origin.number v.state x

variable {w : List (Bracket Invocation)}

theorem served_fresh {m : Machine C} {context : C} {limit : Nat} :
    ((Interpreter.new m context).withHistoryLimit limit).Served [] where
  services := rfl
  nests := .done []
  numbers := rfl
  handles := nofun

theorem Served.of_eq (h : i.Served w) (hservices : j.services = i.services)
    (hinvocations : j.invocations = i.invocations) (hemitters : j.emitters = i.emitters)
    (hmachine : j.machine = i.machine) : j.Served w := by
  constructor
  case services => rw [hservices, h.services]
  case nests => rw [hinvocations]; exact h.nests
  case numbers => rw [hemitters, h.numbers]
  case handles => rw [tree, hmachine]; exact h.handles

theorem services_note (i : Interpreter C) {e : Entry C} (he : Mark.of? e = none) :
    (i.note e).services = i.services := by
  have hmarks : (i.note e).marks = i.marks ++ [] := by rw [marks, log_note, he]; rfl
  rw [services, hmarks, List.append_nil]
  rfl

theorem Numbered.services_shift (hi : i.Numbered) (hclock : i.Clocked) {exit : List StateId}
    (hnodup : exit.Nodup) (entry : List StateId) (c : Configuration) (status : Status) :
    (i.shift exit entry c status).services =
      i.services ++ (i.brackets exit entry).flatMap Bracket.marks := by
  have hmarks := hi.marks_shift hclock hnodup entry c status
  rw [List.append_assoc, ← Bracket.marks_closes, ← Bracket.marks_opens,
    ← List.flatMap_append] at hmarks
  exact services_of_marks hmarks fun _ => Bracket.isService_of_mem

/-- What is stopped lies on top, since it belongs to the end of the path. -/
theorem Served.shift (h : i.Served w) (hi : i.Coherent) (hd : i.dropped = false)
    (hclock : i.Clocked) {kept exit entry : List StateId} {c : Configuration} {status : Status}
    (hbefore : i.configuration.states = kept ++ exit.reverse) :
    (i.shift exit entry c status).Served (w ++ i.brackets exit entry) := by
  obtain ⟨hv, hsize, -, -⟩ := hi.numbered.shift_holdings hclock exit entry c status
  have hmachine := shift_machine i exit entry c status
  have hopened : Bracket.opened (w ++ i.brackets exit entry) =
      Bracket.opened w ++ i.entering entry := by
    rw [Bracket.opened_append, brackets, Bracket.opened_append, Bracket.opened_closes,
      Bracket.opened_opens, List.nil_append]
  constructor
  case services =>
    rw [hi.numbered.services_shift hclock (nodup_exit (hbefore ▸ hi.nodup)), h.services,
      ← List.flatMap_append]
  case nests =>
    have hnests := h.nests
    rw [hi.reverse_invocations hd hbefore] at hnests
    rw [hv, List.reverse_append]
    exact hnests.append ((Bracket.nests_closes _ _).append (Bracket.nests_opens _ _))
  case numbers =>
    have horigin : (i.entering entry).map Invocation.origin =
        (List.range' i.emitters.size (i.tree.invokes entry).length).map InvocationId.mk := by
      rw [tree, ← number_invocationsFrom, List.map_map]
      rfl
    rw [hopened, hsize, List.map_append, h.numbers, horigin, ← List.map_append,
      List.range_eq_range', List.range_eq_range', ← List.range'_append_1, Nat.zero_add]
  case handles =>
    intro v hmem
    rw [hopened] at hmem
    rw [tree, hmachine]
    rcases List.mem_append.mp hmem with hmem | hmem
    · exact h.handles v hmem
    · exact exists_of_mem_invocationsFrom hmem

theorem Served.expire (h : i.Served w) (id : TimerId) : (i.expire id).Served w :=
  h.of_eq (services_note _ rfl) rfl rfl rfl

theorem Served.shiftAlong (h : i.Served w) (hi : i.Coherent) (hs : i.status = .running)
    (hd : i.dropped = false) {s : StateId} {tr : Transition}
    (hactive : s ∈ i.configuration.states) (htr : tr ∈ (i.tree.node s).declared) :
    ∃ x, (i.shiftAlong tr).Served (w ++ x) := by
  obtain ⟨kept, leaf, hspliced⟩ := hi.spliced hs hactive htr
  exact ⟨_, h.shift hi hd (hi.clocked hs) hspliced.before⟩

/-- **A move goes on with the word.** -/
theorem Served.move (h : i.Served w) (hi : i.Coherent) (hmove : Move i j) :
    ∃ x, j.Served (w ++ x) := by
  have hsame (hj : j.Served w) : ∃ x, j.Served (w ++ x) := ⟨[], (List.append_nil w).symm ▸ hj⟩
  cases hmove with
  | aside hij => exact hsame (h.of_eq hij.services hij.invocations hij.emitters hij.machine)
  | clock hs present => exact hsame (h.of_eq rfl rfl rfl rfl)
  | launch hs hd hclock =>
    have hempty : i.configuration.states = [] ++ ([] : List StateId).reverse :=
      hi.nothing_active (by simp [hs])
    exact ⟨_, h.shift hi hd hclock hempty⟩
  | take hs hd hactive htr => exact h.shiftAlong hi hs hd hactive htr
  | late hs hd hid =>
    refine hsame (h.of_eq ?_ rfl rfl rfl)
    exact (services_note _ rfl).trans (services_note i rfl)
  | ring hs hd ht hactive hdelay =>
    exact (h.expire _).shiftAlong (hi.expire _) hs hd hactive (mem_declared_of_after hdelay)
  | lapse hs hd ht hvoid => exact hsame (h.expire _)
  | halt hs hd => exact ⟨_, h.shift hi hd (hi.clocked hs) (states_eq_innermostFirst _)⟩
  | refrain hs hd => exact hsame (h.of_eq rfl rfl rfl rfl)

/-! ### Dropping -/

/-- **Dropping stops what runs, the latest first**, and calls no action and no observer. -/
theorem marks_drop (hd : i.dropped = false) :
    i.drop.marks = i.marks ++ i.invocations.reverse.flatMap Invocation.stopMarks := by
  rw [← marks_foldl_stopInvocation, drop_eq hd]
  rfl

theorem Served.drop (h : i.Served w) (hd : i.dropped = false) :
    i.drop.Served (w ++ i.invocations.reverse.map .closes) := by
  obtain ⟨hv, hsize, -, -⟩ := drop_holdings hd
  have hopened : Bracket.opened (w ++ i.invocations.reverse.map .closes) = Bracket.opened w := by
    rw [Bracket.opened_append, Bracket.opened_closes, List.append_nil]
  constructor
  case services =>
    have hmarks := marks_drop hd
    rw [← Bracket.marks_closes] at hmarks
    rw [services_of_marks hmarks fun _ => Bracket.isService_of_mem, h.services,
      List.flatMap_append]
  case nests =>
    have hcloses := Bracket.nests_closes [] i.invocations.reverse
    rw [List.append_nil] at hcloses
    rw [hv]
    exact h.nests.append hcloses
  case numbers => rw [hopened, hsize, h.numbers]
  case handles =>
    rw [hopened, tree, (sameScene_drop hd).machine]
    exact h.handles

theorem Reachable.served {d : Definition} {host : Implementations C} {m : Machine C}
    (hm : Machine.build d host = .ok m) (hi : Reachable m i) : ∃ w, i.Served w := by
  refine Reachable.invariant_of_coherent hm (P := fun i => ∃ w, i.Served w) ?_ ?_ ?_ hi
  · exact fun _ _ => ⟨[], served_fresh⟩
  · rintro i j hcoherent ⟨w, h⟩ hmove
    obtain ⟨x, hj⟩ := h.move hcoherent hmove
    exact ⟨w ++ x, hj⟩
  · rintro i - ⟨w, h⟩ hd
    exact ⟨_, h.drop hd⟩

/-! ### Each invocation by itself -/

theorem Served.nodup_origin (h : i.Served w) :
    ((Bracket.opened w).map Invocation.origin).Nodup := by
  rw [h.numbers]
  refine List.pairwise_map.mpr (List.nodup_range.imp ?_)
  intro a b hne heq
  exact hne (congrArg InvocationId.number heq)

/-- **What was started runs or was stopped.** -/
theorem Served.perm (h : i.Served w) :
    (Bracket.opened w).Perm (i.invocations.reverse ++ Bracket.closed w) :=
  h.nests.perm

theorem Served.nodup_closed (h : i.Served w) :
    (i.invocations.reverse.map Invocation.origin ++
      (Bracket.closed w).map Invocation.origin).Nodup := by
  rw [← List.map_append]
  exact (h.perm.map Invocation.origin).nodup_iff.mp h.nodup_origin

/-- The service of an invocation was called once. -/
theorem Served.started (h : i.Served w) {v : Invocation} (hv : v ∈ Bracket.opened w) :
    (i.services.filter fun x => x.started? == some v.origin) = [v.startMark] := by
  rw [h.services, Bracket.filter_started, Invocation.filter_origin h.nodup_origin hv]
  rfl

/-- An invocation that runs was not stopped. -/
theorem Served.not_ended (h : i.Served w) {v : Invocation} (hv : v ∈ i.invocations) :
    (i.services.filter fun x => x.ended? == some v.origin) = [] := by
  have hnone : (Bracket.closed w).filter (fun u => u.origin == v.origin) = [] := by
    rw [List.filter_eq_nil_iff]
    intro u hu heq
    have hrunning : v.origin ∈ i.invocations.reverse.map Invocation.origin :=
      List.mem_map_of_mem (List.mem_reverse.mpr hv)
    have hclosed : v.origin ∈ (Bracket.closed w).map Invocation.origin :=
      beq_iff_eq.mp heq ▸ List.mem_map_of_mem hu
    exact List.disjoint_of_nodup_append h.nodup_closed hrunning hclosed
  rw [h.services, Bracket.filter_ended, hnone]
  rfl

/-- An invocation that runs no more was stopped once, and its handle with it. -/
theorem Served.ended (h : i.Served w) {v : Invocation} (hv : v ∈ Bracket.opened w)
    (hgone : v ∉ i.invocations) :
    (i.services.filter fun x => x.ended? == some v.origin) = v.stopMarks := by
  have hnodup := (List.nodup_append.mp h.nodup_closed).2.1
  have hclosed : v ∈ Bracket.closed w := by
    rcases List.mem_append.mp (h.perm.mem_iff.mp hv) with hmem | hmem
    · exact absurd (List.mem_reverse.mp hmem) hgone
    · exact hmem
  rw [h.services, Bracket.filter_ended, Invocation.filter_origin hnodup hclosed,
    List.flatMap_singleton]

/-- What is stopped was started last of what runs. -/
theorem Served.latest (h : i.Served w) {before after : List (Bracket Invocation)} {v : Invocation}
    (hsplit : w = before ++ .closes v :: after) :
    .opens v ∈ before ∧ ∃ others, Bracket.Nests [] before (v :: others) := by
  subst hsplit
  obtain ⟨others, hothers⟩ := h.nests.top_of_closes
  have hmem : v ∈ (v :: others) ++ Bracket.closed before :=
    List.mem_append_left _ (List.mem_cons_self ..)
  exact ⟨Bracket.mem_opened.mp (hothers.perm.mem_iff.mpr hmem), others, hothers⟩

/-! ### Steps -/

/-- What comes of a step. States at the end of the path are left, innermost first, and others are
entered in their place, outermost first. First all that belongs to the former is stopped, handles
included, then all that belongs to the latter is started. Then the actions are run up to the first
one that fails, and last the observers are notified. -/
structure Stepped (i : Interpreter C) (step : Step) (event : Event)
    (out : Interpreter C × Option Fault) : Prop where
  path : ∃ kept, i.configuration.states = kept ++ step.exit.reverse ∧
    out.1.configuration.states = kept ++ step.entry
  marks : ∃ done rest, step.actions = done ++ rest ∧ (out.2 = none → rest = []) ∧
    out.1.marks = i.marks ++ (i.leaving step.exit).flatMap Invocation.stopMarks ++
      (i.entering step.entry).map Invocation.startMark ++
      (done.map fun a => .ran (i.tree.actionName a) event.name) ++
      i.observers.map fun o => .observed o.1

/-- After a shift the host reacts by running the actions of the step. -/
theorem Coherent.shift_stepped (hi : i.Coherent) (hclock : i.Clocked) (step : Step)
    {kept : List StateId} (hbefore : i.configuration.states = kept ++ step.exit.reverse)
    (hafter : step.configuration.states = kept ++ step.entry) {status : Status}
    (hij : Alike (i.shift step.exit step.entry step.configuration status) j)
    (hmarks : j.marks = (i.shift step.exit step.entry step.configuration status).marks)
    (hobservers : j.observers = i.observers) {e : Entry C} (hdeed : e.isDeed = false)
    (hcall : e.isCall = false) (event : Event) (remember : Interpreter C → History) :
    i.Stepped step event (j.react e event step.actions remember) := by
  have htree : j.tree = i.tree := congrArg Machine.tree (hij.machine.trans (shift_machine ..))
  rw [hi.numbered.marks_shift hclock (nodup_exit (hbefore ▸ hi.nodup))] at hmarks
  have hconfiguration := (hij.trans (alike_react j hdeed event step.actions remember)).configuration
  rw [shift_configuration] at hconfiguration
  refine ⟨⟨kept, hbefore, ?_⟩, ?_⟩
  · rw [hconfiguration]
    exact hafter
  · obtain ⟨done, rest, hactions, hnone, hreact⟩ :=
      marks_react j hdeed hcall event step.actions remember
    exact ⟨done, rest, hactions, hnone, by rw [hreact, hmarks, htree, hobservers]⟩

theorem Coherent.take_stepped (hi : i.Coherent) (hs : i.status = .running) {s : StateId}
    {tr : Transition} (hactive : s ∈ i.configuration.states)
    (htr : tr ∈ (i.tree.node s).declared) (event : Event) :
    i.Stepped (i.tree.plan i.configuration tr) event (i.take tr event) := by
  obtain ⟨kept, leaf, hspliced⟩ := hi.spliced hs hactive htr
  rw [take_eq]
  exact hi.shift_stepped (hi.clocked hs) _ hspliced.before hspliced.after (.refl _) rfl
    (shift_observers ..) rfl rfl event _

theorem Coherent.stop_stepped (hi : i.Coherent) (hs : i.status = .running) :
    i.Stepped (i.tree.halt i.configuration) .stop i.stop := by
  have hall := states_eq_innermostFirst i.configuration
  have halike := alike_discard (i.shift i.configuration.innermostFirst [] .empty .stopped)
  have hmarks := log_note (f := Mark.of?)
    (i.shift i.configuration.innermostFirst [] .empty .stopped)
    (.discarded (i.shift i.configuration.innermostFirst [] .empty .stopped).queue.length)
  rw [stop_eq hs]
  exact hi.shift_stepped (hi.clocked hs) (i.tree.halt i.configuration) hall rfl halike
    (hmarks.trans (List.append_nil _)) (shift_observers ..) rfl rfl .stop Interpreter.history

theorem Coherent.launch_stepped (hi : i.Coherent) (hs : i.status = .notStarted)
    (hclock : i.Clocked) : i.Stepped i.tree.opening .init i.launch := by
  have hempty : i.configuration.states = [] ++ ([] : List StateId).reverse :=
    hi.nothing_active (by simp [hs])
  rw [launch]
  exact hi.shift_stepped hclock i.tree.opening hempty rfl (.refl _) rfl (shift_observers ..) rfl rfl
    .init _

/-- What only happened to the queue and the timers makes no difference to a step. -/
theorem Stepped.of_eq {step : Step} {event : Event} {out : Interpreter C × Option Fault}
    (h : j.Stepped step event out) (hmarks : j.marks = i.marks)
    (hconfiguration : j.configuration = i.configuration) (hmachine : j.machine = i.machine)
    (hinvocations : j.invocations = i.invocations) (hemitters : j.emitters = i.emitters)
    (hobservers : j.observers = i.observers) : i.Stepped step event out where
  path := hconfiguration ▸ h.path
  marks := by
    obtain ⟨done, rest, hactions, hnone, hout⟩ := h.marks
    refine ⟨done, rest, hactions, hnone, ?_⟩
    simpa only [leaving, entering, tree, hmarks, hmachine, hinvocations, hemitters, hobservers]
      using hout

theorem marks_pull (i : Interpreter C) (e : Envelope) (rest : List Envelope) :
    (i.pull e rest).marks = i.marks := by
  have hlog : (i.pull e rest).marks = i.marks ++ [] := log_note i (.dequeued e)
  rw [hlog, List.append_nil]

/-- A message has no effect on services and host code, or it leads to a step. -/
theorem Coherent.handle_stepped (hi : i.Coherent) (hs : i.status = .running) (e : Envelope)
    (rest : List Envelope) :
    ((i.handle e rest).1.marks = i.marks ∧
      (i.handle e rest).1.configuration = i.configuration) ∨
    (∃ s ∈ i.configuration.states, ∃ tr ∈ (i.tree.node s).declared, ∃ event,
      i.Stepped (i.tree.plan i.configuration tr) event (i.handle e rest)) ∨
    i.Stepped (i.tree.halt i.configuration) .stop (i.handle e rest) := by
  have hpulled := hi.pull e rest
  have hmarks := i.marks_pull e rest
  cases e with
  | event event origin =>
    rw [handle, process, processEvent]
    split
    case h_1 gone hgone =>
      exact .inl ⟨(log_note _ _).trans ((List.append_nil _).trans hmarks), rfl⟩
    case h_2 =>
      split
      case h_1 tr htr =>
        obtain ⟨s, hactive, hdeclared⟩ := StateTree.exists_of_select htr
        have hstepped := hpulled.take_stepped hs hactive hdeclared event
        exact .inr (.inl ⟨s, hactive, tr, hdeclared, event,
          hstepped.of_eq hmarks rfl rfl rfl rfl rfl⟩)
      case h_2 => exact .inl ⟨(log_note _ _).trans ((List.append_nil _).trans hmarks), rfl⟩
  | timer id =>
    rcases hi.handle_timer id rest with ⟨t, ht, rfl, delay, hdelay, hhandle⟩ | ⟨_, hhandle⟩
    · rw [hhandle]
      have hdeclared := mem_declared_of_after hdelay
      have hexpired : ({ i.expire t.id with queue := rest } : Interpreter C).Coherent :=
        (hi.expire t.id).alike (alike_aside _ rest _ _ _ _ _)
      have hstepped :=
        hexpired.take_stepped hs (hi.state_mem ht) hdeclared (.named delay.event)
      exact .inr (.inl ⟨t.state, hi.state_mem ht, delay.transition, hdeclared,
        .named delay.event, hstepped.of_eq hmarks rfl rfl rfl rfl rfl⟩)
    · rw [hhandle]
      exact .inl ⟨(log_note _ _).trans ((List.append_nil _).trans hmarks), rfl⟩
  | stop => exact .inr (.inr ((hpulled.stop_stepped hs).of_eq hmarks rfl rfl rfl rfl rfl))

/-! ### The whole run -/

/-- **Services are well nested.** What is stopped is always what was started last and still runs.
Each service was called once for its invocation; as long as the invocation runs nothing of it was
stopped, and when it runs no more it was stopped once and its handle with it. Nothing runs when the
machine is stopped or dropped, so that all that was started was stopped. A message has no effect on
services and host code, or it leads to a step, in which all stops come before all starts and these
before the first action; so do a start and a stop. Dropping stops what runs, the latest first, and
runs no action and no observer. -/
theorem Reachable.well_nested {d : Definition} {host : Implementations C} {m : Machine C}
    (hm : Machine.build d host = .ok m) (hi : Reachable m i) :
    (∃ w, i.Served w ∧
      (∀ before v after, w = before ++ .closes v :: after →
        .opens v ∈ before ∧ ∃ others, Bracket.Nests [] before (v :: others)) ∧
      (∀ v ∈ Bracket.opened w,
        (i.services.filter fun x => x.started? == some v.origin) = [v.startMark] ∧
        (v ∈ i.invocations → (i.services.filter fun x => x.ended? == some v.origin) = []) ∧
        (v ∉ i.invocations →
          (i.services.filter fun x => x.ended? == some v.origin) = v.stopMarks)) ∧
      (i.status = .stopped ∨ i.dropped = true → i.invocations = [] ∧ Bracket.Nests [] w [])) ∧
    (i.status = .running → ∀ e rest,
      ((i.handle e rest).1.marks = i.marks ∧
        (i.handle e rest).1.configuration = i.configuration) ∨
      (∃ s ∈ i.configuration.states, ∃ tr ∈ (m.tree.node s).declared, ∃ event,
        i.Stepped (m.tree.plan i.configuration tr) event (i.handle e rest)) ∨
      i.Stepped (m.tree.halt i.configuration) .stop (i.handle e rest)) ∧
    (i.status = .notStarted → i.Clocked → i.Stepped m.tree.opening .init i.launch) ∧
    (i.status = .running → i.Stepped (m.tree.halt i.configuration) .stop i.stop) ∧
    (i.dropped = false →
      i.drop.marks = i.marks ++ i.invocations.reverse.flatMap Invocation.stopMarks) := by
  have hcoherent := hi.coherent hm
  have htree : i.tree = m.tree := congrArg Machine.tree hi.machine
  refine ⟨?_, ?_, ?_, ?_, marks_drop⟩
  · obtain ⟨w, hserved⟩ := hi.served hm
    refine ⟨w, hserved, fun _ _ _ => hserved.latest, ?_, fun hover => ?_⟩
    · intro v hv
      exact ⟨hserved.started hv, hserved.not_ended, hserved.ended hv⟩
    · have hnone : i.invocations = [] := by
        rcases hover with hs | hd
        · exact (hcoherent.nothing_held (by simp [hs])).2.1
        · exact (hcoherent.dropped hd).1
      have hnests := hserved.nests
      rw [hnone] at hnests
      exact ⟨hnone, hnests⟩
  · intro hs
    rw [← htree]
    exact hcoherent.handle_stepped hs
  · intro hs hclock
    rw [← htree]
    exact hcoherent.launch_stepped hs hclock
  · intro hs
    rw [← htree]
    exact hcoherent.stop_stepped hs

end Interpreter

/-- A ferry that was caught by a gale and then dropped. -/
def ferryLost : Interpreter Nat :=
  (ferryAtSea.perform (.send 1 (.named "blow"))).perform .drop

/-- The sonar is stopped before the pump is started. In the end the pump and the engine are aborted
and the host code of the radar is called, in this order; the radio has nothing to stop. -/
theorem ferryLost_well_nested : ferryLost.dropped = true ∧
    ferryLost.services =
      [.start "radio" ⟨0⟩, .start "engine" ⟨1⟩, .start "radar" ⟨2⟩, .start "sonar" ⟨3⟩,
        .stop ⟨3⟩ "sonar", .tornDown "sonar" ⟨3⟩, .start "pump" ⟨4⟩,
        .stop ⟨4⟩ "pump", .aborted ⟨4⟩, .stop ⟨2⟩ "radar", .tornDown "radar" ⟨2⟩,
        .stop ⟨1⟩ "engine", .aborted ⟨1⟩, .stop ⟨0⟩ "radio"] ∧
    ∃ w, ferryLost.services = w.flatMap Bracket.marks ∧ Bracket.Nests [] w [] := by
  have hdropped : ferryLost.dropped = true := by decide +kernel
  have hreachable : Interpreter.Reachable ferryMachine ferryLost :=
    (reachable_ferryAtSea.call (.send 1 (.named "blow"))).call .drop
  obtain ⟨⟨w, hserved, -, -, hover⟩, -⟩ :=
    Interpreter.Reachable.well_nested build_ferry hreachable
  exact ⟨hdropped, by decide +kernel, w, hserved.services, (hover (.inr hdropped)).2⟩

end Statechart
