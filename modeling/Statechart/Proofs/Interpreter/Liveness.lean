import Statechart.Proofs.Interpreter.Finality

/-!
# Who is heard

That an invocation runs is known twice: to the interpreter, which keeps a list of those that run,
and to its emitter, which has fallen silent or not. Between two messages both say the same
(`Agrees`), namely that the state of the invocation has been active ever since it was entered for
it, and that the interpreter is there and runs (`rounds_liveness`). In between they may differ:
while a service is being started its emitter is heard already, and it has fallen silent when the
service is told to stop.
-/

namespace Statechart

namespace Interpreter

variable {C : Type} {i j k : Interpreter C}

/-! ### Two records -/

/-- Whether the emitter of an invocation has not fallen silent. -/
def isHeard (i : Interpreter C) (origin : InvocationId) : Bool :=
  (i.emitters[origin.number]?).any Emitter.alive

theorem isAlive_eq (i : Interpreter C) (origin : InvocationId) :
    i.isAlive origin = (!i.dropped && i.isHeard origin) := rfl

/-- The interpreter when an invocation has fallen silent, before it is torn down. -/
def hush (i : Interpreter C) (v : Invocation) : Interpreter C :=
  ({ i with invocations := i.invocations.filter fun w => w.origin != v.origin }.note
    (.invocationStopped v.origin v.id)).silence v.origin

theorem isHeard_hush (i : Interpreter C) (v : Invocation) (origin : InvocationId) :
    (i.hush v).isHeard origin = (i.isHeard origin && origin != v.origin) := by
  have hemitters : (i.hush v).emitters =
      i.emitters.modify v.origin.number fun e => { e with alive := false } := rfl
  rw [isHeard, isHeard, hemitters, Array.getElem?_modify]
  by_cases h : origin = v.origin
  · cases hget : i.emitters[v.origin.number]? <;> simp [h, hget]
  · have hne : v.origin.number ≠ origin.number := fun hn => h (congrArg InvocationId.mk hn.symm)
    simp [h, hne]

theorem isHeard_stopInvocation (i : Interpreter C) (v : Invocation) (origin : InvocationId) :
    (i.stopInvocation v).isHeard origin = (i.isHeard origin && origin != v.origin) := by
  have hstill := congrArg Interpreter.emitters (still_tearDown (i.hush v) v)
  have hemitters : (i.stopInvocation v).emitters = (i.hush v).emitters := hstill
  rw [← isHeard_hush, isHeard, hemitters, isHeard]

theorem isLive_stopInvocation (i : Interpreter C) (v : Invocation) (origin : InvocationId) :
    (i.stopInvocation v).isLive origin = (i.isLive origin && origin != v.origin) := by
  rw [Bool.eq_iff_iff, Bool.and_eq_true, isLive_iff, isLive_iff,
    (stopInvocation_holdings i v).invocations_eq]
  simp only [List.mem_filter]
  constructor
  · rintro ⟨w, ⟨hw, hne⟩, rfl⟩
    exact ⟨⟨w, hw, rfl⟩, hne⟩
  · rintro ⟨⟨w, hw, rfl⟩, hne⟩
    exact ⟨w, ⟨hw, hne⟩, rfl⟩

theorem isHeard_startInvocation (s : StateId) (i : Interpreter C) (v : Invoke)
    (origin : InvocationId) :
    (startInvocation s i v).isHeard origin =
      (i.isHeard origin || origin == ⟨i.emitters.size⟩) := by
  have hnote (j : Interpreter C) (e : Entry C) : (j.note e).emitters = j.emitters := rfl
  have hentries (j : Interpreter C) : ((i.begunEntries s v).foldl note j).emitters = j.emitters :=
    foldl_unchanged Interpreter.emitters hnote _ j
  have hemitters : (startInvocation s i v).emitters = (i.announce v).emitters := by
    rw [startInvocation_eq]
    exact (hentries _).trans (untouched_deliver _ _).emitters
  have hpush : (i.announce v).emitters =
      i.emitters.push ⟨i.tree.serviceName v.service, true⟩ := rfl
  rw [isHeard, isHeard, hemitters, hpush, Array.getElem?_push]
  by_cases h : origin = ⟨i.emitters.size⟩
  · simp [h]
  · have hne : origin.number ≠ i.emitters.size := fun hn => h (congrArg InvocationId.mk hn)
    simp [h, hne]

theorem isLive_startInvocation (s : StateId) (i : Interpreter C) (v : Invoke)
    (origin : InvocationId) :
    (startInvocation s i v).isLive origin = (i.isLive origin || origin == ⟨i.emitters.size⟩) := by
  rw [isLive, (startInvocation_holdings s i v).invocations_eq, List.any_append, isLive]
  simp [Machine.invocation, @BEq.comm _ _ _ origin]

/-! ### They agree -/

/-- **Both records agree** on which invocations run. -/
def Agrees (i : Interpreter C) : Prop := ∀ origin, i.isHeard origin = i.isLive origin

theorem Agrees.alike (h : i.Agrees) (hij : Alike i j) : j.Agrees := by
  intro origin
  rw [isHeard, isLive, hij.emitters, hij.invocations]
  exact h origin

theorem Agrees.stopInvocation (h : i.Agrees) (v : Invocation) : (i.stopInvocation v).Agrees := by
  intro origin
  rw [isHeard_stopInvocation, isLive_stopInvocation, h origin]

theorem Agrees.startInvocation (h : i.Agrees) (s : StateId) (v : Invoke) :
    (startInvocation s i v).Agrees := by
  intro origin
  rw [isHeard_startInvocation, isLive_startInvocation, h origin]

theorem Agrees.shift (h : i.Agrees) (exit entry : List StateId) (c : Configuration)
    (status : Status) : (i.shift exit entry c status).Agrees := by
  refine shift_preserves ?_ ?_ ?_ ?_ ?_ h exit entry c status
  · exact fun _ v hi => hi.stopInvocation v
  · exact fun _ _ hi => hi
  · exact fun _ _ _ hi => hi
  · exact fun s _ v hi => hi.startInvocation s v
  · intro s i delay hi
    unfold armTimer
    split <;> exact hi

theorem Agrees.move (h : i.Agrees) (hmove : Move i j) : j.Agrees := by
  cases hmove with
  | aside hij => exact h.alike hij
  | launch hs hd hclock => exact h.shift _ _ _ _
  | take hs hd hactive htr => exact h.shift _ _ _ _
  | @ring hs hd t delay ht hactive hdelay =>
    have hexpired : (i.expire t.id).Agrees := h
    exact hexpired.shift _ _ _ _
  | halt hs hd => exact h.shift _ _ _ _
  | _ => exact h

theorem Agrees.drop (h : i.Agrees) (hd : i.dropped = false) : i.drop.Agrees := by
  have hstopped : (i.invocations.reverse.foldl Interpreter.stopInvocation i).Agrees :=
    List.foldlRecOn _ _ h fun _ hj v _ => hj.stopInvocation v
  rw [Interpreter.drop, hd]
  exact hstopped

theorem agrees_of_rounds {m : Machine C} {context : C} {limit : Nat}
    (h : Rounds ((Interpreter.new m context).withHistoryLimit limit) i) : i.Agrees := by
  induction h with
  | refl => exact fun _ => rfl
  | tail _ hround ih =>
    exact hround.keeps (fun _ _ => Agrees.move) (fun _ => Agrees.drop) ih

/-- **An emitter is alive if its invocation runs**, and only then. -/
theorem Coherent.isAlive_eq_isLive (hi : i.Coherent) (h : i.Agrees) (origin : InvocationId) :
    i.isAlive origin = i.isLive origin := by
  rw [isAlive_eq, h origin]
  cases hd : i.dropped with
  | false => rfl
  | true => rw [isLive, (hi.dropped hd).1]; rfl

/-! ### From when on, and how long -/

/-- What is numbered anew in a shift runs after it. -/
theorem Coherent.begun_of_shift (hi : i.Coherent) (hclock : i.Clocked) {exit entry : List StateId}
    {c : Configuration} {status : Status} (hij : Alike (i.shift exit entry c status) j)
    {n : Nat} (hle : i.emitters.size ≤ n) (hlt : n < j.emitters.size) :
    ∃ v ∈ j.invocations, v.origin = ⟨n⟩ := by
  obtain ⟨hinvocations, hsize, -, -⟩ := hi.numbered.shift_holdings hclock exit entry c status
  rw [hij.emitters, hsize] at hlt
  have hmem : n ∈ (i.machine.invocationsFrom i.emitters.size entry).map fun v =>
      v.origin.number := by
    rw [number_invocationsFrom]
    exact List.mem_range'_1.mpr ⟨hle, hlt⟩
  obtain ⟨v, hv, hn⟩ := List.mem_map.mp hmem
  refine ⟨v, ?_, congrArg InvocationId.mk hn⟩
  rw [hij.invocations, hinvocations]
  exact List.mem_append_right _ hv

/-- **What is numbered anew in a round runs after it.** -/
theorem Coherent.begun_of_round (hi : i.Coherent) (h : Round i j) {n : Nat}
    (hle : i.emitters.size ≤ n) (hlt : n < j.emitters.size) :
    ∃ v ∈ j.invocations, v.origin = ⟨n⟩ := by
  have hsame (hsize : j.emitters.size = i.emitters.size) :
      ∃ v ∈ j.invocations, v.origin = ⟨n⟩ := by omega
  cases h with
  | launch hs hd hclock =>
    rw [launch] at hlt ⊢
    exact hi.begun_of_shift hclock (alike_react _ rfl _ _ _) hle hlt
  | @handle hs hd e rest hqueue =>
    cases hstep : i.stepOf? e with
    | none =>
      have hstill := congrArg Interpreter.emitters (hi.ignores_of_stepOf? hstep rest).still
      exact hsame (congrArg Array.size hstill)
    | some step =>
      have hdrawn := hi.draw e rest
      obtain ⟨c, status, halike⟩ := hi.handle_alike hs hstep rest
      exact hdrawn.begun_of_shift (hdrawn.clocked hs) halike hle hlt
  | stop hd =>
    cases hs : i.status with
    | notStarted =>
      apply hsame
      rw [stop_eq_of_notStarted hs]
      exact congrArg Array.size (alike_notify i.abandoned).emitters
    | running =>
      rw [stop_eq hs] at hlt ⊢
      exact hi.begun_of_shift (hi.clocked hs)
        ((alike_discard _).trans (alike_react _ rfl _ _ _)) hle hlt
    | stopped =>
      apply hsame
      rw [stop_eq_of_stopped hs]
  | drop hd => exact hsame (drop_holdings hd).size_eq
  | _ => exact hsame rfl

/-- On the way from `j` to `k` a message makes the machine leave the state. -/
def Exits (s : StateId) (j k : Interpreter C) : Prop :=
  ∃ mid e rest step, Rounds j mid ∧ mid.status = .running ∧ mid.dropped = false ∧
    mid.queue = e :: rest ∧ Rounds (mid.handle e rest).1 k ∧ mid.stepOf? e = some step ∧
    s ∈ step.exit

theorem Stays.not_exits {s : StateId} (h : Stays s j k) : ¬ Exits s j k := by
  rintro ⟨mid, e, rest, step, hmid, hs, hd, hqueue, hlater, hstep, hexit⟩
  have hround : Round mid (mid.handle e rest).1 := .handle hs hd hqueue
  exact (h mid hmid (.head hround hlater)).2 e rest hs hqueue hlater step hstep hexit

/-- **An invocation runs on until its state is left**, as long as the interpreter is there and
runs. -/
theorem Coherent.lives_or_exits (hj : j.Coherent) {v : Invocation} (hv : v ∈ j.invocations)
    (hjk : Rounds j k) (hs : k.status = .running) (hd : k.dropped = false) :
    v ∈ k.invocations ∨ Exits v.state j k := by
  -- from the beginning, since what happens in a round depends on the state before it
  induction hjk using Relation.ReflTransGen.head_induction_on with
  | refl => exact .inl hv
  | @head a c hround hrest ih =>
    have hc := hround.coherent hj
    have hgoes (hvc : v ∈ c.invocations) : v ∈ k.invocations ∨ Exits v.state a k := by
      refine (ih hc hvc).imp_right ?_
      rintro ⟨mid, e, rest, step, hmid, hexits⟩
      exact ⟨mid, e, rest, step, .head hround hmid, hexits⟩
    have hrunning := hj.running_of_invocation hv
    cases hround with
    | launch hs' hd' hclock => exact nomatch hs'.symm.trans hrunning
    | @handle hs' hd' e rest hqueue =>
      cases hstep : a.stepOf? e with
      | none =>
        have hstill := congrArg Interpreter.invocations (hj.ignores_of_stepOf? hstep rest).still
        have hsame : (a.handle e rest).1.invocations = a.invocations := hstill
        exact hgoes (hsame ▸ hv)
      | some step =>
        by_cases hexit : v.state ∈ step.exit
        · exact .inr ⟨a, e, rest, step, .refl, hs', hd', hqueue, hrest, hstep, hexit⟩
        · apply hgoes
          rw [(hj.handle_shifted hs' hstep rest).invocations]
          exact List.mem_append_left _ (List.mem_filter.mpr ⟨hv, by simpa using hexit⟩)
    | stop hd' =>
      have hstopped := (Rounds.unmoved hrest hc a.stop_status).status
      exact nomatch (hstopped.trans a.stop_status).symm.trans hs
    | drop hd' =>
      have hgone := Rounds.dropped hrest (dropped_drop _)
      exact nomatch hgone.symm.trans hd
    | _ => exact hgoes hv

/-- In the round from `i` to `j` an invocation begins: it is numbered anew, and runs afterwards. Its
state is entered. -/
structure Begins (v : Invocation) (i j : Interpreter C) : Prop where
  new : i.emitters.size ≤ v.origin.number
  runs : v ∈ j.invocations
  enters : Enters v.state i j

/-- Whatever has a number began at some time. -/
theorem exists_begins {m : Machine C} {context : C} {limit : Nat}
    (hfresh : ((Interpreter.new m context).withHistoryLimit limit).Coherent)
    (h : Rounds ((Interpreter.new m context).withHistoryLimit limit) k) (origin : InvocationId)
    (hlt : origin.number < k.emitters.size) :
    ∃ i j v, Rounds ((Interpreter.new m context).withHistoryLimit limit) i ∧ Round i j ∧
      Rounds j k ∧ v.origin = origin ∧ Begins v i j := by
  induction h with
  | refl => exact nomatch hlt
  | @tail i j hrounds hround ih =>
    by_cases hold : origin.number < i.emitters.size
    · obtain ⟨before, after, v, hbefore, hbegins, hafter, hv⟩ := ih hold
      exact ⟨before, after, v, hbefore, hbegins, .tail hafter hround, hv⟩
    · have hi := Rounds.coherent hrounds hfresh
      have hnew : i.emitters.size ≤ origin.number := Nat.not_lt.mp hold
      obtain ⟨v, hv, horigin⟩ := hi.begun_of_round hround hnew hlt
      obtain rfl : v.origin = origin := horigin
      have hnot : v ∉ i.invocations := fun hmem => hold (hi.numbered.invocation_lt hmem)
      have henters := ((hi.new_of_round hround).1 v hv).resolve_left hnot
      exact ⟨i, j, v, hrounds, hround, .refl, rfl, hnew, hv, henters⟩

/-- **An invocation runs exactly as long as its state is not left** and the interpreter is there and
runs. -/
theorem Coherent.isLive_iff_stays (hj : j.Coherent) {v : Invocation} (hv : v ∈ j.invocations)
    (hjk : Rounds j k) :
    k.isLive v.origin = true ↔ k.status = .running ∧ k.dropped = false ∧ Stays v.state j k := by
  have hk := Rounds.coherent hjk hj
  constructor
  · intro hlive
    obtain ⟨w, hw, -⟩ := isLive_iff.mp hlive
    exact ⟨hk.running_of_invocation hw, hk.not_dropped_of_invocation hw, hj.stays_of_live hv hlive⟩
  · rintro ⟨hs, hd, hstays⟩
    have hlives := (hj.lives_or_exits hv hjk hs hd).resolve_right hstays.not_exits
    exact isLive_iff.mpr ⟨v, hlives, rfl⟩

/-! ### What is heard -/

/-- What an emitter sends is accepted if its invocation runs, and otherwise it is lost. -/
theorem Coherent.emit_eq (hk : k.Coherent) (h : k.Agrees) (origin : InvocationId) (event : Event) :
    k.emit origin event =
      if k.isLive origin then k.enqueue (.event event (some origin)) else k := by
  rw [emit, hk.isAlive_eq_isLive h]

theorem Coherent.signal_emit (hk : k.Coherent) (h : k.Agrees) {ref : EmitterRef}
    {origin : InvocationId} (href : k.emitter? ref = some origin) (event : Event) :
    k.signal (.emit ref event) =
      (k.emit origin event).note (.emitted (some (k.isLive origin))) := by
  simp only [signal, href, hk.isAlive_eq_isLive h]

theorem perform_emit (i : Interpreter C) (origin : InvocationId) (event : Event) :
    i.perform (.emit origin event) = i.emit origin event := by
  simp [perform, Call.isRemote, carryOut]

/-- A message with an origin is accepted only if the emitter is alive. -/
theorem isAlive_of_message? {s : Signal} {event : Event} {origin : InvocationId}
    (h : i.message? s = some (.event event (some origin))) : i.isAlive origin = true := by
  cases s with
  | emit ref sent =>
    obtain ⟨emitter, -, hmessage⟩ := Option.bind_eq_some_iff.mp h
    split at hmessage
    case isTrue halive =>
      cases hmessage
      exact halive
    case isFalse => exact nomatch hmessage
  | send | stop | elapse =>
    simp only [message?] at h
    split at h <;> cases h

/-- **What is told to stop is not heard any more.** -/
theorem stopInvocation_posted (i : Interpreter C) (v : Invocation) :
    ∃ new, (i.stopInvocation v).posted = i.posted ++ new ∧
      ∀ event, .event event (some v.origin) ∉ new := by
  have hhush : (i.hush v).posted = i.posted := (log_note i _).trans (List.append_nil _)
  have hsilent : (i.hush v).isAlive v.origin = false := by
    rw [isAlive_eq, isHeard_hush]
    simp
  have htorn : (i.stopInvocation v) = (i.hush v).tearDown v := rfl
  rw [htorn, tearDown]
  split
  case h_1 => exact ⟨[], by rw [hhush, List.append_nil], by simp⟩
  case h_2 =>
    refine ⟨[], ?_, by simp⟩
    exact (log_note (i.hush v) _).trans (congrArg (· ++ []) hhush)
  case h_3 signals _ =>
    let told := (i.hush v).note (.tornDown v.service v.origin)
    have htold : told.posted = i.posted :=
      (log_note _ _).trans ((List.append_nil _).trans hhush)
    refine ⟨signals.filterMap told.message?, ?_, ?_⟩
    · rw [posted_deliver, htold]
    · intro event hmem
      obtain ⟨s, -, hs⟩ := List.mem_filterMap.mp hmem
      have halive : (i.hush v).isAlive v.origin = true := isAlive_of_message? hs
      exact Bool.false_ne_true (hsilent.symm.trans halive)

/-- **A service is heard while it is being started.** -/
theorem startInvocation_posted (hd : i.dropped = false) (s : StateId) (v : Invoke) :
    ∃ new, (startInvocation s i v).posted = i.posted ++ new ∧
      ∀ ref event, .emit ref event ∈ (i.startup v).signals →
        (i.announce v).emitter? ref = some ⟨i.emitters.size⟩ →
        .event event (some ⟨i.emitters.size⟩) ∈ new := by
  have hannounce : (i.announce v).posted = i.posted := (log_note i _).trans (List.append_nil _)
  have hentries : ((i.begunEntries s v).filterMap Entry.posted?) = [] := by
    unfold begunEntries
    cases (i.startup v).task <;> rfl
  have hposted : (startInvocation s i v).posted =
      i.posted ++ (i.startup v).signals.filterMap (i.announce v).message? := by
    rw [startInvocation_eq]
    refine (log_notes _ (i.begunEntries s v)).trans ?_
    rw [hentries, List.append_nil, ← hannounce]
    exact posted_deliver _ _
  have halive : (i.announce v).isAlive ⟨i.emitters.size⟩ = true := by
    simp [isAlive, announce, note, hd]
  refine ⟨_, hposted, ?_⟩
  intro ref event hmem href
  refine List.mem_filterMap.mpr ⟨_, hmem, ?_⟩
  simp only [message?, href, Option.bind_some, halive, if_true]

/-! ### The whole run -/

section Runs

variable {d : Definition} {host : Implementations C} {m : Machine C}

/-- **Both records of what runs agree.** Between two messages an emitter is alive exactly if its
invocation runs, which is as long as the state has not been left since it was entered for it and the
interpreter is there and runs; what is emitted is accepted exactly then. What is told to stop is not
heard any more. What a service emits while it is being started is accepted, and is stale only if the
state has been left meanwhile. -/
theorem rounds_liveness (hm : Machine.build d host = .ok m) (context : C) (limit : Nat) :
    let fresh := (Interpreter.new m context).withHistoryLimit limit
    (∀ calls, Rounds fresh (fresh.after calls)) ∧
    (∀ k, Rounds fresh k →
      (∀ origin, k.isAlive origin = k.isLive origin) ∧
      (∀ origin event, k.perform (.emit origin event) =
        if k.isLive origin then k.enqueue (.event event (some origin)) else k) ∧
      (∀ ref origin event, k.emitter? ref = some origin → k.signal (.emit ref event) =
        (k.perform (.emit origin event)).note (.emitted (some (k.isLive origin)))) ∧
      (∀ origin, origin.number < k.emitters.size →
        ∃ i j v, Rounds fresh i ∧ Round i j ∧ Rounds j k ∧ v.origin = origin ∧ Begins v i j) ∧
      ∀ i j v, Rounds fresh i → Round i j → Rounds j k → Begins v i j →
        (k.isLive v.origin = true ↔
          k.status = .running ∧ k.dropped = false ∧ Stays v.state j k) ∧
        (k.status = .running → k.dropped = false → ∀ event,
          k.Stale (.event event (some v.origin)) → Exits v.state j k)) ∧
    (∀ (i : Interpreter C) v, ∃ new, (i.stopInvocation v).posted = i.posted ++ new ∧
      ∀ event, .event event (some v.origin) ∉ new) ∧
    ∀ (i : Interpreter C) s v, i.dropped = false →
      (startInvocation s i v).isLive ⟨i.emitters.size⟩ = true ∧
      ∃ new, (startInvocation s i v).posted = i.posted ++ new ∧
        ∀ ref event, .emit ref event ∈ (i.startup v).signals →
          (i.announce v).emitter? ref = some ⟨i.emitters.size⟩ →
          .event event (some ⟨i.emitters.size⟩) ∈ new := by
  intro fresh
  have hfresh : fresh.Coherent := (Reachable.fresh context limit).coherent hm
  refine ⟨after_rounds fresh, ?_, stopInvocation_posted, ?_⟩
  · intro k h
    have hk := Rounds.coherent h hfresh
    have hagrees := agrees_of_rounds h
    refine ⟨hk.isAlive_eq_isLive hagrees, ?_, ?_, exists_begins hfresh h, ?_⟩
    · intro origin event
      rw [perform_emit, hk.emit_eq hagrees]
    · intro ref origin event href
      rw [perform_emit, hk.signal_emit hagrees href]
    · intro i j v hi hround hjk hbegins
      have hj := hround.coherent (Rounds.coherent hi hfresh)
      refine ⟨hj.isLive_iff_stays hbegins.runs hjk, ?_⟩
      intro hs hd event hstale
      refine (hj.lives_or_exits hbegins.runs hjk hs hd).resolve_left fun hlives => ?_
      have hlive : k.isLive v.origin = true := isLive_iff.mpr ⟨v, hlives, rfl⟩
      exact nomatch hlive.symm.trans hstale
  · intro i s v hd
    refine ⟨?_, startInvocation_posted hd s v⟩
    rw [isLive_startInvocation]
    simp

end Runs

end Interpreter

/-! ### A lamp that buzzes -/

/-- The host of a lamp that buzzes when it goes on, and tries to once more when it goes off. -/
def buzzingHost : Implementations Nat := Implementations.none.service "hum" fun origin =>
  ⟨[.emit (.of origin) (.named "buzz")], none,
    .new (.callback [.emit (.of origin) (.named "buzz")])⟩

def buzzingMachine : Machine Nat := .built lamp buzzingHost

theorem build_buzzing : Machine.build lamp buzzingHost = .ok buzzingMachine :=
  Machine.build_built rfl

/-- The emitter of a lamp that is on is alive, since the lamp has been on ever since. -/
theorem buzzing_liveness :
    let fresh := (Interpreter.new buzzingMachine 0).withHistoryLimit 10
    let k := fresh.after [.start 1, .send 5 (.named "press")]
    k.isLive ⟨0⟩ = true ∧ k.isAlive ⟨0⟩ = true ∧
    ∃ i j v, Interpreter.Rounds fresh i ∧ Interpreter.Round i j ∧ Interpreter.Rounds j k ∧
      v.origin = ⟨0⟩ ∧ Interpreter.Begins v i j ∧ Interpreter.Stays v.state j k := by
  intro fresh k
  have hlive : k.isLive ⟨0⟩ = true := by decide +kernel
  obtain ⟨hcalls, hruns, -⟩ := Interpreter.rounds_liveness build_buzzing 0 10
  obtain ⟨halive, -, -, hbegun, hlasts⟩ := hruns k (hcalls _)
  obtain ⟨i, j, v, hi, hround, hk, horigin, hbegins⟩ := hbegun ⟨0⟩ (by decide +kernel)
  have hstays := ((hlasts i j v hi hround hk hbegins).1.mp (horigin ▸ hlive)).2.2
  exact ⟨hlive, (halive ⟨0⟩).trans hlive, i, j, v, hi, hround, hk, horigin, hbegins, hstays⟩

end Statechart
