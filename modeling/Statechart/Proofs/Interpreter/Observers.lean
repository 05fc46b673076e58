import Statechart.Proofs.Interpreter.Passages

/-!
# Who watches

Every passage is shown to whoever watches, once and in the order of subscribing, and they all see
the same (`Passage.snapshot`); nothing else is shown to anyone. What a call shows is therefore what
the passages made in it look like (`Shows`), no matter how many there are and which of them fail.
Who watches changes only by calls that say so, and no two who subscribe are given the same number
(`calls_observed`).
-/

namespace Statechart

variable {C : Type}

/-- What there is to see after a passage: the states that are active then, the context that the
actions leave behind, up to the first one that fails, and the event. -/
def Passage.snapshot (p : Passage) (m : Machine C) (context : C) : Snapshot C where
  value := (p.after m.tree).value m.tree
  context := m.carry p.occasion context (p.step m.tree).actions
  status := p.status
  event := p.event?

namespace Machine

variable (m : Machine C)

/-- What there is to see after each of the passages. -/
def views : C → List Passage → List (Snapshot C)
  | _, [] => []
  | c, p :: rest => p.snapshot m c :: views (p.snapshot m c).context rest

/-- The context after passages. -/
def contextAfter (c : C) (passages : List Passage) : C :=
  passages.foldl (fun c p => (p.snapshot m c).context) c

theorem views_append (c : C) (a b : List Passage) :
    m.views c (a ++ b) = m.views c a ++ m.views (m.contextAfter c a) b := by
  induction a generalizing c with
  | nil => rfl
  | cons p rest ih =>
    rw [List.cons_append, views, ih, views, List.cons_append]
    rfl

end Machine

/-- The call is about who watches. -/
def Call.isSubscription : Call C → Bool
  | .subscribe _ | .unsubscribe _ => true
  | _ => false

namespace Interpreter

variable {i j k : Interpreter C}

/-! ### Who watches -/

/-- Who watches, and the number of the next one who will. -/
def audience (i : Interpreter C) : List (Nat × Observer C) × Nat :=
  (i.observers, i.nextSubscription)

theorem audience_of_shell (h : j.shell = i.shell) : j.audience = i.audience := by
  have haudience := congrArg audience h
  exact haudience

theorem audience_of_still (h : j.still = i.still) : j.audience = i.audience :=
  audience_of_shell (shell_eq_of_still h)

theorem audience_shift (i : Interpreter C) (exit entry : List StateId) (c : Configuration)
    (status : Status) : (i.shift exit entry c status).audience = i.audience := by
  have hleft := audience_of_shell (shell_leaveAll i exit)
  have hentered :=
    audience_of_shell (shell_enterAll { i.leaveAll exit with configuration := c, status } entry)
  exact hentered.trans hleft

theorem audience_react (i : Interpreter C) (e : Entry C) (event : Event) (actions : List ActionId)
    (remember : Interpreter C → History) :
    (i.react e event actions remember).1.audience = i.audience := by
  let acted := ((i.note e).runActions event actions).1
  have hacted := congrArg audience (still_runActions event (i.note e) actions i.context)
  have hnotified := audience_of_still
    (still_notify { acted with history := remember acted, lastEvent := some event })
  exact hnotified.trans hacted

theorem audience_launch (i : Interpreter C) : i.launch.1.audience = i.audience :=
  (audience_react _ _ _ _ _).trans (audience_shift _ _ _ _ _)

theorem audience_take (i : Interpreter C) (tr : Transition) (event : Event) :
    (i.take tr event).1.audience = i.audience := by
  rw [take_eq]
  exact (audience_react _ _ _ _ _).trans (audience_shift _ _ _ _ _)

theorem audience_stop (i : Interpreter C) : i.stop.1.audience = i.audience := by
  cases hs : i.status with
  | notStarted =>
    have hnotified := audience_of_still (still_notify i.abandoned)
    rw [stop_eq_of_notStarted hs]
    exact hnotified
  | running =>
    rw [stop_eq hs]
    exact (audience_react _ _ _ _ _).trans (audience_shift _ _ _ _ _)
  | stopped => rw [stop_eq_of_stopped hs]

theorem audience_handle (i : Interpreter C) (e : Envelope) (rest : List Envelope) :
    (i.handle e rest).1.audience = i.audience := by
  cases e with
  | event event origin =>
    simp only [handle, process, processEvent]
    split
    · rfl
    · split
      · exact audience_take _ _ _
      · rfl
  | timer id =>
    simp only [handle, process, processTimer]
    split
    · rfl
    · split
      · split
        · exact audience_take _ _ _
        · rfl
      · rfl
  | stop => exact audience_stop _

theorem Handles.audience (h : Handles i j) : j.audience = i.audience := by
  induction h with
  | refl => rfl
  | cons _ _ _ ih => exact ih.trans (audience_handle _ _ _)

theorem audience_enact (i : Interpreter C) {c : Call C} (hc : c.isSubscription = false) :
    (i.enact c).audience = i.audience := by
  cases c with
  | start fuel =>
    simp only [enact]
    split
    · exact audience_launch i
    · rfl
  | send fuel event =>
    simp only [enact]
    split <;> rfl
  | drain fuel => rfl
  | next fuel => rfl
  | stop => exact audience_stop i
  | drop =>
    have hstopped := audience_of_shell
      (foldl_unchanged shell shell_stopInvocation i.invocations.reverse i)
    simp only [enact, carryOut, drop]
    split
    · rfl
    · exact hstopped
  | subscribe observer => cases hc
  | unsubscribe subscription => cases hc
  | post event => exact audience_of_still (still_post i _)
  | requestStop => exact audience_of_still (still_post i _)
  | emit origin event => exact audience_of_still (still_emit i origin event)
  | elapse timer => exact audience_of_still (still_post i _)
  | tick now => rfl
  | provideClock present =>
    simp only [enact, carryOut]
    split <;> rfl

/-- **Who watches changes only by calls about it.** -/
theorem audience_perform (i : Interpreter C) {c : Call C} (hc : c.isSubscription = false) :
    (i.perform c).audience = i.audience := by
  cases hd : i.dropped with
  | true =>
    rcases perform_of_dropped hd c with hsame | ⟨now, htime⟩
    · rw [hsame]
    · rw [htime]
      rfl
  | false =>
    rw [perform_of_kept hd]
    exact (carryOut_handles i c).audience.trans (audience_enact i hc)

theorem observers_of_audience (h : j.audience = i.audience) : j.observers = i.observers :=
  congrArg Prod.fst h

/-- To start a machine again comes to nothing. -/
theorem perform_start_again (hs : i.status ≠ .notStarted) (fuel : Nat) :
    i.perform (.start fuel) = i := by
  have hstart := (i.enact_start_of_not fuel fun hfirst => hs hfirst.1).2
  unfold perform
  split
  · rfl
  · exact hstart

/-- To stop a machine again comes to nothing. -/
theorem perform_stop_again (hs : i.status = .stopped) : i.perform .stop = i := by
  unfold perform
  split
  · rfl
  · rw [carryOut, stop_eq_of_stopped hs]

/-! ### Numbers of subscriptions -/

/-- The number that a call gives out, if it is one to subscribe. -/
def issued? (i : Interpreter C) : Call C → Option Nat
  | .subscribe _ => if i.dropped then none else some i.nextSubscription
  | _ => none

/-- The numbers that are given out in the course of calls. -/
def issued (i : Interpreter C) : List (Call C) → List Nat
  | [] => []
  | c :: rest => (i.issued? c).toList ++ issued (i.perform c) rest

theorem issued?_of_not {c : Call C} (hc : c.isSubscription = false) : i.issued? c = none := by
  cases c with
  | subscribe => cases hc
  | _ => rfl

/-- A call gives out the next number, or none. -/
theorem issued?_eq (i : Interpreter C) (c : Call C) :
    ∃ n, (i.issued? c).toList = List.range' i.nextSubscription n ∧
      (i.perform c).nextSubscription = i.nextSubscription + n := by
  cases hc : c.isSubscription with
  | false =>
    have hnext := congrArg Prod.snd (audience_perform i hc)
    exact ⟨0, by rw [issued?_of_not hc]; rfl, hnext⟩
  | true =>
    cases hd : i.dropped with
    | true =>
      refine ⟨0, ?_, ?_⟩
      · cases c <;> simp [issued?, hd]
      · cases c with
        | subscribe | unsubscribe => simp [perform, hd, Call.isRemote]
        | _ => cases hc
    | false =>
      cases c with
      | subscribe observer =>
        refine ⟨1, by simp [issued?, hd], ?_⟩
        rw [perform_of_kept hd]
        rfl
      | unsubscribe subscription =>
        refine ⟨0, rfl, ?_⟩
        rw [perform_of_kept hd]
        rfl
      | _ => cases hc

/-- **Numbers of subscriptions are given out one after another.** -/
theorem issued_eq (i : Interpreter C) (calls : List (Call C)) :
    ∃ n, i.issued calls = List.range' i.nextSubscription n ∧
      (i.after calls).nextSubscription = i.nextSubscription + n := by
  induction calls generalizing i with
  | nil => exact ⟨0, rfl, rfl⟩
  | cons c rest ih =>
    obtain ⟨n, hissued, hnext⟩ := i.issued?_eq c
    obtain ⟨n', hissued', hnext'⟩ := ih (i.perform c)
    refine ⟨n + n', ?_, ?_⟩
    · rw [issued, hissued, hissued', hnext, List.range'_append_1]
    · rw [← Nat.add_assoc, ← hnext]
      exact hnext'

/-- The numbers of those who watch rise, and all of them have been given out. -/
def Enrolled (i : Interpreter C) : Prop := Rising (i.observers.map Prod.fst) i.nextSubscription

theorem Enrolled.of_audience (hi : i.Enrolled) (h : j.audience = i.audience) : j.Enrolled := by
  have hobservers := observers_of_audience h
  have hnext : j.nextSubscription = i.nextSubscription := congrArg Prod.snd h
  rw [Enrolled, hobservers, hnext]
  exact hi

theorem Enrolled.subscribe (hi : i.Enrolled) (observer : Observer C) :
    (i.subscribe observer).Enrolled := by
  rw [Enrolled, Interpreter.subscribe, List.map_append]
  exact hi.append_range' 1

theorem Enrolled.unsubscribe (hi : i.Enrolled) (n : Nat) : (i.unsubscribe n).Enrolled :=
  hi.sublist (List.filter_sublist.map _)

theorem Enrolled.perform (hi : i.Enrolled) (c : Call C) : (i.perform c).Enrolled := by
  cases hc : c.isSubscription with
  | false => exact hi.of_audience (audience_perform i hc)
  | true =>
    unfold Interpreter.perform
    split
    · exact hi
    · cases c with
      | subscribe observer => exact hi.subscribe observer
      | unsubscribe n => exact hi.unsubscribe n
      | _ => cases hc

theorem Enrolled.after (hi : i.Enrolled) (calls : List (Call C)) : (i.after calls).Enrolled := by
  induction calls generalizing i with
  | nil => exact hi
  | cons c rest ih => exact ih (hi.perform c)

/-- **To unsubscribe removes the one of that number**, and leaves the others in their order. -/
theorem Enrolled.observers_unsubscribe (hi : i.Enrolled) {a b : List (Nat × Observer C)} {n : Nat}
    {o : Observer C} (h : i.observers = a ++ (n, o) :: b) :
    (i.unsubscribe n).observers = a ++ b := by
  have hnodup := hi.nodup
  rw [h, List.map_append, List.map_cons] at hnodup
  -- The number occurs once, so nobody before or behind is taken for the one.
  have hothers := (List.nodup_cons.mp (List.nodup_middle.mp hnodup)).1
  rw [List.mem_append, not_or] at hothers
  have hkept {l : List (Nat × Observer C)} (hl : n ∉ l.map Prod.fst) :
      l.filter (fun x => x.1 != n) = l := by
    refine List.filter_eq_self.mpr fun x hx => ?_
    have hne : x.1 ≠ n := fun heq => hl (heq ▸ List.mem_map_of_mem hx)
    simpa using hne
  have hgone : ((n, o) :: b).filter (fun x => x.1 != n) = b.filter fun x => x.1 != n := by
    simp
  rw [Interpreter.unsubscribe, h, List.filter_append, hgone, hkept hothers.1, hkept hothers.2]

theorem unsubscribe_of_not {n : Nat} (h : i.isSubscribed n = false) : i.unsubscribe n = i := by
  have hkept : i.observers.filter (fun o => o.1 != n) = i.observers := by
    refine List.filter_eq_self.mpr fun o ho => ?_
    have hne := List.any_eq_false.mp h o ho
    simpa using hne
  rw [unsubscribe, hkept]

/-! ### What is shown -/

/-- **After a passage there is to see what it looks like.** -/
theorem Passes.snapshot {p : Passage} (h : Passes i p j) :
    j.snapshot = p.snapshot i.machine i.context := by
  have htree : j.tree = i.tree := congrArg Machine.tree h.machine
  rw [Interpreter.snapshot, value, h.after, h.context, h.status, h.lastEvent, htree]
  rfl

/-- From `i` to `j` the passages are made, and each of them is shown to all who watch in `i`. -/
structure Shows (i : Interpreter C) (made : List Passage) (j : Interpreter C) : Prop where
  machine : j.machine = i.machine
  passages : j.passages = i.passages ++ made
  context : j.context = i.machine.contextAfter i.context made
  sightings : j.sightings = i.sightings ++
    (i.machine.views i.context made).flatMap fun s => i.observers.map fun o => (o.1, s)

theorem Shows.trans {a b : List Passage} (hij : Shows i a j)
    (hobservers : j.observers = i.observers) (hjk : Shows j b k) : Shows i (a ++ b) k where
  machine := hjk.machine.trans hij.machine
  passages := by rw [hjk.passages, hij.passages, List.append_assoc]
  context := by
    rw [hjk.context, hij.machine, hij.context, Machine.contextAfter, Machine.contextAfter,
      Machine.contextAfter, List.foldl_append]
  sightings := by
    rw [hjk.sightings, hij.sightings, hij.machine, hij.context, hobservers, Machine.views_append,
      List.flatMap_append, List.append_assoc]

theorem Rests.shows (h : Rests i j) : Shows i [] j where
  machine := h.machine
  passages := h.passages.trans (List.append_nil _).symm
  context := h.context
  sightings := (h.log _ Entry.tells_observed).trans (List.append_nil _).symm

theorem Passes.shows {p : Passage} (h : Passes i p j) : Shows i [p] j where
  machine := h.machine
  passages := h.passages
  context := h.context
  sightings := by
    rw [h.sightings, h.snapshot, Machine.views, Machine.views, List.flatMap_singleton]

section Chronicles

variable {context : C}

/-- The passage that a call makes by itself, before it goes on to process messages. -/
def ownPassage? (i : Interpreter C) (c : Call C) : Option Passage :=
  match i.dropped, c, i.status with
  | false, .start _, .notStarted =>
    if i.tree.hasDelays = true → i.hasClock = true then some .entrance else none
  | false, .stop, .notStarted => some .abandonment
  | false, .stop, .running => some (.departure i.configuration)
  | _, _, _ => none

theorem Chronicled.shows_round (h : i.Chronicled context) (hround : Round i j) :
    ∃ made, Shows i made j ∧ ∀ p ∈ made, p.stage = i.status := by
  rcases h.rests_or_passes hround with hrests | ⟨p, hpasses⟩
  · exact ⟨[], hrests.shows, by simp⟩
  · exact ⟨[p], hpasses.shows, by simpa using hpasses.stage.symm⟩

/-- What is shown while messages are processed. -/
theorem Chronicled.shows_handles (h : i.Chronicled context) (hd : i.dropped = false)
    (hij : Handles i j) : ∃ made, Shows i made j ∧ ∀ p ∈ made, p.stage = .running := by
  induction hij with
  | refl => exact ⟨[], (Rests.refl _).shows, by simp⟩
  | @cons i j e rest hs hqueue _ ih =>
    have hround : Round i (i.handle e rest).1 := .handle hs hd hqueue
    obtain ⟨first, hfirst, hstage⟩ := h.shows_round hround
    obtain ⟨later, hlater, hstages⟩ := ih (h.round hround) (handle_dropped i hs hd e rest)
    refine ⟨first ++ later, ?_, ?_⟩
    · exact hfirst.trans (observers_of_audience (audience_handle i e rest)) hlater
    · intro p hp
      rcases List.mem_append.mp hp with hp | hp
      · exact (hstage p hp).trans hs
      · exact hstages p hp

/-- What a call that makes no passage by itself does at first is not shown to anyone. -/
theorem rests_enact {c : Call C} (hstart : ∀ fuel, c ≠ .start fuel) (hstop : c ≠ .stop)
    (hdrop : c ≠ .drop) : Rests i (i.enact c) := by
  have hpost (e : Envelope) : Rests i (i.post e) := by
    unfold post
    split
    · exact i.rests_enqueue e
    · exact .refl i
  cases c with
  | start fuel => exact absurd rfl (hstart fuel)
  | send fuel event =>
    simp only [enact]
    split
    · exact i.rests_note rfl fun _ => rfl
    · exact i.rests_enqueue _
  | stop => exact absurd rfl hstop
  | drop => exact absurd rfl hdrop
  | post event => exact hpost _
  | requestStop => exact hpost _
  | emit origin event =>
    simp only [enact, carryOut, emit]
    split
    · exact i.rests_enqueue _
    · exact .refl i
  | elapse timer => exact hpost _
  | provideClock present =>
    simp only [enact, carryOut]
    split
    · exact { Rests.refl i with }
    · exact .refl i
  | _ => exact { Rests.refl i with }

theorem Chronicled.shows_enact (h : i.Chronicled context) (hd : i.dropped = false) {c : Call C}
    (hdrop : c ≠ .drop) : Shows i (i.ownPassage? c).toList (i.enact c) := by
  cases c with
  | start fuel =>
    by_cases hfirst : i.status = .notStarted ∧ i.Clocked
    · have hown : i.ownPassage? (.start fuel) = some .entrance := by
        simp only [ownPassage?, hd, hfirst.1]
        exact if_pos hfirst.2
      rw [hown, enact_start i fuel hfirst.1 hfirst.2]
      exact (h.launch_passes hfirst.1 hd).shows
    · have hown : i.ownPassage? (.start fuel) = none := by
        cases hs : i.status with
        | notStarted =>
          simp only [ownPassage?, hd, hs]
          exact if_neg fun hclock => hfirst ⟨hs, hclock⟩
        | _ => simp only [ownPassage?, hd, hs]
      rw [hown, (i.enact_start_of_not fuel hfirst).1]
      exact (Rests.refl i).shows
  | stop =>
    show Shows i _ i.stop.1
    cases hs : i.status with
    | notStarted =>
      simp only [ownPassage?, hd, hs]
      exact (h.abandon_passes hs).shows
    | running =>
      simp only [ownPassage?, hd, hs]
      exact (h.stop_passes hs hd).shows
    | stopped =>
      simp only [ownPassage?, hd, hs, stop]
      exact (Rests.refl i).shows
  | drop => exact absurd rfl hdrop
  | _ =>
    simp only [ownPassage?, hd]
    exact (rests_enact (by simp) (by simp) (by simp)).shows

/-- **What a call shows is what the passages made in it look like**, first its own and then those
that messages lead to. -/
theorem Chronicled.shows_perform (h : i.Chronicled context) (c : Call C) :
    ∃ later, Shows i ((i.ownPassage? c).toList ++ later) (i.perform c) ∧
      ∀ p ∈ later, p.stage = .running := by
  cases hd : i.dropped with
  | true =>
    have hown : i.ownPassage? c = none := by simp only [ownPassage?, hd]
    have hrests : Rests i (i.perform c) := by
      rcases perform_of_dropped hd c with hsame | ⟨now, htime⟩
      · exact hsame.symm ▸ .refl i
      · exact htime.symm ▸ { Rests.refl i with }
    exact ⟨[], hown ▸ hrests.shows, by simp⟩
  | false =>
    rw [perform_of_kept hd]
    by_cases hdrop : c = .drop
    · subst hdrop
      have hown : i.ownPassage? .drop = none := by simp only [ownPassage?, hd]
      exact ⟨[], hown ▸ (h.drop_rests hd).shows, by simp⟩
    · have hshown := h.shows_enact hd hdrop
      cases hc : c.isSubscription with
      | true =>
        -- Nothing comes after it, so it does not matter that others watch.
        cases c with
        | subscribe | unsubscribe =>
          refine ⟨[], ?_, by simp⟩
          rw [List.append_nil]
          exact hshown
        | _ => cases hc
      | false =>
        have henacted : (i.enact c).Chronicled context := by
          rcases enact_round hd c with hsame | hround
          · exact hsame.symm ▸ h
          · exact h.round hround
        obtain ⟨later, hlater, hstages⟩ :=
          henacted.shows_handles (enact_dropped hd hdrop) (carryOut_handles i c)
        exact ⟨later, hshown.trans (observers_of_audience (audience_enact i hc)) hlater, hstages⟩

end Chronicles

/-! ### The whole run -/

section Runs

variable {d : Definition} {host : Implementations C} {m : Machine C}

/-- **Those who watch see every passage once**: the start, every transition that is taken and the
stop, failed or not, in the order of subscribing and all the same. Nothing else is shown to anyone.
Numbers of subscriptions are never given out again, and to unsubscribe removes the one of that
number. -/
theorem calls_observed (hm : Machine.build d host = .ok m) (context : C) (limit : Nat) :
    let fresh := (Interpreter.new m context).withHistoryLimit limit
    (∀ calls, Rounds fresh (fresh.after calls)) ∧
    (∀ i, Rounds fresh i →
      (∀ j, Round i j → j.passages = i.passages ∧ j.sightings = i.sightings ∨
        i.dropped = false ∧ ∃ p, Makes i p j) ∧
      (i.dropped = false → ∀ p j, Makes i p j → j.passages = i.passages ++ [p] ∧
        j.snapshot = p.snapshot m i.context ∧
        j.sightings = i.sightings ++ i.observers.map fun o => (o.1, p.snapshot m i.context)) ∧
      (i.status = .running → i.dropped = false → ∀ e rest, e ≠ .stop → i.choice? e = none →
        (i.handle e rest).1.sightings = i.sightings) ∧
      (i.status ≠ .notStarted → ∀ fuel, i.perform (.start fuel) = i) ∧
      (i.status = .stopped → i.perform .stop = i)) ∧
    ∀ calls, let i := fresh.after calls
      fresh.issued calls = List.range i.nextSubscription ∧
      (i.observers.map Prod.fst).Pairwise (· < ·) ∧
      (∀ c, ∃ made later, made = (i.ownPassage? c).toList ++ later ∧
        (∀ p ∈ later, p.stage = .running) ∧ (i.perform c).passages = i.passages ++ made ∧
        (i.perform c).sightings = i.sightings ++
          (m.views i.context made).flatMap fun s => i.observers.map fun o => (o.1, s)) ∧
      (∀ c, c.isSubscription = false → (i.perform c).observers = i.observers) ∧
      (i.dropped = false → ∀ o, (i.perform (.subscribe o)).observers =
        i.observers ++ [(i.nextSubscription, o)]) ∧
      (i.dropped = false → ∀ n,
        (∀ a o b, i.observers = a ++ (n, o) :: b →
          (i.perform (.unsubscribe n)).observers = a ++ b) ∧
        (i.isSubscribed n = false → i.perform (.unsubscribe n) = i)) := by
  intro fresh
  refine ⟨after_rounds fresh, ?_, ?_⟩
  · intro i h
    have hchronicled := chronicled_of_rounds hm h
    have hmachine : i.machine = m := h.machine
    refine ⟨?_, ?_, ?_, perform_start_again, perform_stop_again⟩
    · intro j hround
      refine (hchronicled.rests_or_makes hround).imp_left fun hrests => ?_
      exact ⟨hrests.passages, hrests.log _ Entry.tells_observed⟩
    · intro hd p j hmakes
      have hpasses := hchronicled.passes hd hmakes
      have hsnapshot : j.snapshot = p.snapshot m i.context := hmachine ▸ hpasses.snapshot
      exact ⟨hpasses.passages, hsnapshot, hsnapshot ▸ hpasses.sightings⟩
    · intro hs hd e rest he hnone
      exact (hchronicled.handle_rests hs hd he hnone rest).log _ Entry.tells_observed
  · intro calls i
    have hrounds : Rounds fresh i := after_rounds fresh calls
    have hchronicled := chronicled_of_rounds hm hrounds
    have hmachine : i.machine = m := hrounds.machine
    have hnobody : fresh.Enrolled := Rising.nil
    have henrolled : i.Enrolled := hnobody.after calls
    refine ⟨?_, henrolled.pairwise, ?_, ?_, ?_, ?_⟩
    · obtain ⟨n, hissued, hnext⟩ := fresh.issued_eq calls
      have hn : i.nextSubscription = n := hnext.trans (Nat.zero_add n)
      rw [hn, List.range_eq_range']
      exact hissued
    · intro c
      obtain ⟨later, hshows, hstages⟩ := hchronicled.shows_perform c
      exact ⟨_, later, rfl, hstages, hshows.passages, hmachine ▸ hshows.sightings⟩
    · intro c hc
      exact observers_of_audience (audience_perform i hc)
    · intro hd o
      rw [perform_of_kept hd]
      rfl
    · intro hd n
      rw [perform_of_kept hd]
      exact ⟨fun a o b h => henrolled.observers_unsubscribe h, unsubscribe_of_not⟩

end Runs

end Interpreter

/-- Two watch a fuse, one from before it is lit. They see it blow, though melting fails; one of them
goes. -/
theorem fuse_observed :
    let watcher : Observer Nat := fun _ _ => []
    let fresh := (Interpreter.new fuseMachine 0).withHistoryLimit 10
    let calls := [.subscribe watcher, .start 1, .subscribe watcher]
    let i := fresh.after calls
    let j := i.perform (.send 5 (.named "surge"))
    fresh.issued calls = List.range 2 ∧ j.failures.length = 1 ∧
    (∃ made, j.passages = i.passages ++ made ∧ j.sightings = i.sightings ++
      (fuseMachine.views i.context made).flatMap fun s => [(0, s), (1, s)]) ∧
    (i.perform (.unsubscribe 0)).observers = [(1, watcher)] := by
  intro watcher fresh calls i j
  have hthere : i.dropped = false := by decide +kernel
  have hnext : i.nextSubscription = 2 := by decide +kernel
  obtain ⟨-, -, hruns⟩ := Interpreter.calls_observed build_fuse 0 10
  obtain ⟨hissued, -, hshown, -, -, hremoved⟩ := hruns calls
  have hobservers : i.observers = [(0, watcher), (1, watcher)] := by
    obtain ⟨-, -, -, hkept, -⟩ := hruns [.subscribe watcher]
    obtain ⟨-, -, -, -, hjoins, -⟩ := hruns [.subscribe watcher, .start 1]
    have hlit := hkept (.start 1) rfl
    have hjoined := hjoins (by decide +kernel) watcher
    have hone : (fresh.after [.subscribe watcher, .start 1]).nextSubscription = 1 := by
      decide +kernel
    rw [hone] at hjoined
    exact hjoined.trans (congrArg (· ++ [(1, watcher)]) hlit)
  obtain ⟨made, -, -, -, hpassages, hsightings⟩ := hshown (.send 5 (.named "surge"))
  refine ⟨hnext ▸ hissued, by decide +kernel, ⟨made, hpassages, ?_⟩, ?_⟩
  · rw [hobservers] at hsightings
    exact hsightings
  · exact (hremoved hthere 0).1 [] watcher [(1, watcher)] hobservers

end Statechart
