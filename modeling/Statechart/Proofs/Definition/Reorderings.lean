import Statechart.Proofs.Definition.Drafts

/-!
# Declarations in another order

Only some of the declarations for a state are told apart by their order: those of one lane, such as
the actions on entry or the candidates for one event (`Draft.Lane`). Delays and children are in no
lane. So declarations may be put into any order that keeps each lane as it is, and so may those for
each child (`Draft.Reordered`): the same definition is built, or none (`Draft.build_of_reordered`).
-/

namespace Statechart

/-! ### Lists in another order -/

section Repeats

variable {κ : Type} [DecidableEq κ]

theorem count_repeatsAfter (before l : List κ) (a : κ) :
    (repeatsAfter before l).count a = if a ∈ before then l.count a else l.count a - 1 := by
  induction l generalizing before with
  | nil => simp
  | cons b rest ih =>
    rw [repeatsAfter_cons, List.count_append, ih]
    by_cases hab : b = a
    · subst hab
      by_cases hb : b ∈ before <;> simp [hb, Nat.add_comm]
    · have hmem : a ∈ b :: before ↔ a ∈ before := by simp [Ne.symm hab]
      by_cases hb : b ∈ before <;> simp [hb, hab, hmem]

theorem perm_repeats {l l' : List κ} (h : l.Perm l') : (repeats l).Perm (repeats l') :=
  List.perm_iff_count.mpr fun a => by
    rw [repeats, repeats, count_repeatsAfter, count_repeatsAfter, h.count_eq]

end Repeats

namespace Keyed

variable {α : Type} {key : α → String} {l l' : List α}

theorem Ascending.nodup (h : Ascending key l) : l.Nodup := by
  refine h.imp ?_
  rintro a _ hlt rfl
  exact String.lt_irrefl _ hlt

/-- The same items have only one ascending order. -/
theorem Ascending.eq_of_mem_iff (h : Ascending key l) (h' : Ascending key l')
    (hmem : ∀ a, a ∈ l ↔ a ∈ l') : l = l' := by
  have hperm : l.Perm l' := (List.perm_ext_iff_of_nodup h.nodup h'.nodup).mpr hmem
  exact hperm.eq_of_pairwise (fun _ _ _ _ hab hba => absurd hba (String.lt_asymm hab)) h h'

/-- Items with different keys may be put in in any order. -/
theorem ofList_eq_of_perm (h : l.Perm l') (hnodup : (l.map key).Nodup) :
    ofList key l = ofList key l' := by
  have hnodup' : (l'.map key).Nodup := (h.map key).nodup_iff.mp hnodup
  have hperm := (perm_ofList hnodup).trans (h.trans (perm_ofList hnodup').symm)
  exact (ascending_ofList l).eq_of_mem_iff (ascending_ofList l') fun _ => hperm.mem_iff

theorem Ascending.find?_eq_some_iff (h : Ascending key l) {k : String} {a : α} :
    find? key k l = some a ↔ a ∈ l ∧ key a = k := by
  constructor
  · intro hfind
    exact ⟨List.mem_of_find?_eq_some hfind, by simpa using List.find?_some hfind⟩
  · rintro ⟨ha, rfl⟩
    obtain ⟨front, back, rfl⟩ := List.append_of_mem ha
    obtain ⟨-, -, hfront⟩ := List.pairwise_append.mp h
    refine List.find?_eq_some_iff_append.mpr ⟨by simp, front, back, rfl, fun b hb => ?_⟩
    have hlt := hfront b hb a List.mem_cons_self
    simpa using fun heq : key b = key a => String.lt_irrefl _ (heq ▸ hlt)

end Keyed

namespace Dict

variable {α : Type} {d d' : Dict α}

theorem mem_entries_iff {e : String × α} : e ∈ d.entries ↔ d.find? e.1 = some e.2 := by
  rw [find?, Option.map_eq_some_iff]
  simp only [d.ascending.find?_eq_some_iff]
  constructor
  · exact fun he => ⟨e, ⟨he, rfl⟩, rfl⟩
  · rintro ⟨e', ⟨he', hkey⟩, hvalue⟩
    rwa [← Prod.ext hkey hvalue]

/-- Two maps that have the same under every key are equal. -/
theorem ext_find? (h : ∀ key, d.find? key = d'.find? key) : d = d' := by
  rw [mk.injEq]
  refine d.ascending.eq_of_mem_iff d'.ascending fun e => ?_
  rw [mem_entries_iff, mem_entries_iff, h]

end Dict

namespace Draft

variable {declarations declarations' : List Declaration} {d d' : Draft}

/-! ### Lanes -/

/-- A kind of declarations that are told apart by their order. -/
inductive Lane where
  | initial
  | entry
  | exit
  /-- the candidates of one event -/
  | on (event : String)
  | invoke
  | description
  deriving DecidableEq

/-- The lane of a declaration. Delays and children have none. -/
def Declaration.lane? : Declaration → Option Lane
  | .initial _ => some .initial
  | .entry _ => some .entry
  | .exit _ => some .exit
  | .on event _ => some (.on event)
  | .invoke _ => some .invoke
  | .describe _ => some .description
  | .after _ _ | .state _ => none

/-- The declarations of one lane, in their order. -/
def inLane (lane : Lane) (declarations : List Declaration) : List Declaration :=
  declarations.filter fun c => c.lane? = some lane

/-- The same declarations in another order, each lane in the same one. -/
structure Shuffled (declarations declarations' : List Declaration) : Prop where
  perm : declarations.Perm declarations'
  lane : ∀ lane, inLane lane declarations = inLane lane declarations'

/-- Declarations in another order, and those for the children as well, at any depth. -/
inductive Reordered : List Declaration → List Declaration → Prop
  | shuffle {declarations declarations' : List Declaration} :
    Shuffled declarations declarations' → Reordered declarations declarations'
  | child (front back : List Declaration) (key : String)
      {declarations declarations' : List Declaration} :
    Reordered declarations declarations' →
      Reordered (front ++ .state (declared key declarations) :: back)
        (front ++ .state (declared key declarations') :: back)
  | trans {declarations declarations' declarations'' : List Declaration} :
    Reordered declarations declarations' → Reordered declarations' declarations'' →
      Reordered declarations declarations''

/-! ### What is read off the lanes -/

/-- Alike in all that a definition keeps: the candidates of each event in their order, and the
delays in any. -/
structure DraftBody.Agrees (b b' : DraftBody) : Prop where
  key : b.key = b'.key
  initial : b.initial = b'.initial
  entry : b.entry = b'.entry
  exit : b.exit = b'.exit
  on : ∀ event, (b.on.filter fun e => e.1 = event) = b'.on.filter fun e => e.1 = event
  after : b.after.Perm b'.after
  invoke : b.invoke = b'.invoke
  description : b.description = b'.description

theorem filterMap_eq_of_inLane {α : Type} {f : Declaration → Option α} {lane : Lane}
    (h : inLane lane declarations = inLane lane declarations')
    (hf : ∀ c, f c = none ∨ c.lane? = some lane) :
    declarations.filterMap f = declarations'.filterMap f := by
  have hlane (cs : List Declaration) : (inLane lane cs).filterMap f = cs.filterMap f := by
    rw [inLane, List.filterMap_filter]
    refine List.filterMap_congr fun c _ => ?_
    rcases hf c with hnone | hc
    · simp [hnone]
    · simp [hc]
  rw [← hlane declarations, ← hlane declarations', h]

/-- What a state declares itself stands in the lanes, but for the delays. -/
theorem agrees_of_inLane (key : String)
    (hlane : ∀ lane, inLane lane declarations = inLane lane declarations')
    (hafter : (declarations.filterMap Declaration.after?).Perm
      (declarations'.filterMap Declaration.after?)) :
    DraftBody.Agrees (declared key declarations).body (declared key declarations').body := by
  have hc := collects_declared key declarations
  have hc' := collects_declared key declarations'
  constructor
  case key => rw [hc.key, hc'.key]
  case initial =>
    rw [hc.initial, hc'.initial, ← List.getLast?_filterMap, ← List.getLast?_filterMap]
    refine congrArg List.getLast? (filterMap_eq_of_inLane (hlane .initial) fun c => ?_)
    cases c <;> simp [Declaration.initial?, Declaration.lane?]
  case entry =>
    rw [hc.entry, hc'.entry]
    refine filterMap_eq_of_inLane (hlane .entry) fun c => ?_
    cases c <;> simp [Declaration.entry?, Declaration.lane?]
  case exit =>
    rw [hc.exit, hc'.exit]
    refine filterMap_eq_of_inLane (hlane .exit) fun c => ?_
    cases c <;> simp [Declaration.exit?, Declaration.lane?]
  case on =>
    intro event
    rw [hc.on, hc'.on, List.filter_filterMap, List.filter_filterMap]
    refine filterMap_eq_of_inLane (hlane (.on event)) fun c => ?_
    cases c with
    | on other t =>
      by_cases hother : other = event
      · exact .inr (congrArg (fun e => some (Lane.on e)) hother)
      · exact .inl (by simp [Declaration.on?, hother])
    | _ => exact .inl rfl
  case after => rwa [hc.after, hc'.after]
  case invoke =>
    rw [hc.invoke, hc'.invoke]
    refine filterMap_eq_of_inLane (hlane .invoke) fun c => ?_
    cases c <;> simp [Declaration.invoke?, Declaration.lane?]
  case description =>
    rw [hc.description, hc'.description, ← List.getLast?_filterMap, ← List.getLast?_filterMap]
    refine congrArg List.getLast? (filterMap_eq_of_inLane (hlane .description) fun c => ?_)
    cases c <;> simp [Declaration.description?, Declaration.lane?]

/-- The candidates are those that are declared for each event. -/
theorem candidates_eq {on on' : List (String × TransitionDef)}
    (h : ∀ event, (on.filter fun e => e.1 = event) = on'.filter fun e => e.1 = event) :
    candidates on = candidates on' := by
  apply Dict.ext_find?
  intro event
  have hmem (l : List (String × TransitionDef)) :
      event ∈ l.map Prod.fst ↔ (l.filter fun e => e.1 = event) ≠ [] := by
    simp [List.filter_eq_nil_iff]
  rw [find?_candidates, find?_candidates]
  simp only [hmem, h]

theorem DraftBody.Agrees.toBody_eq {b b' : DraftBody} (h : Agrees b b')
    (hwhole : ∀ e ∈ b.after, e.1.IsWholeMillis) (hnodup : (b.after.map Prod.fst).Nodup) :
    toBody b = toBody b' := by
  have hdelays : delays b.after = delays b'.after := by
    rw [delays, delays, Dict.ofList, Dict.ofList, Dict.mk.injEq]
    have hall : b.after.filter (fun e => e.1.IsWholeMillis) = b.after :=
      List.filter_eq_self.mpr fun e he => decide_eq_true (hwhole e he)
    refine Keyed.ofList_eq_of_perm ((h.after.filter _).map _) ?_
    rw [hall, List.map_map]
    exact nodup_texts hwhole hnodup
  rw [toBody, toBody, h.key, h.initial, h.entry, h.exit, candidates_eq h.on, hdelays, h.invoke,
    h.description]

/-! ### Drafts that come to the same -/

/-- The same defects in any order, and if there are none the same definition. -/
structure Alike (d d' : Draft) : Prop where
  key : d.key = d'.key
  defects : ∀ id, (d.defects id).Perm (d'.defects id)
  toDef : ∀ id, d.defects id = [] → d.toDef.arrange = d'.toDef.arrange

theorem Alike.defects_eq_nil (h : Alike d d') (id : String) :
    d.defects id = [] ↔ d'.defects id = [] :=
  ⟨fun hnil => List.nil_perm.mp (hnil ▸ h.defects id),
    fun hnil => List.perm_nil.mp (hnil ▸ h.defects id)⟩

theorem Alike.trans {d'' : Draft} (h : Alike d d') (h' : Alike d' d'') : Alike d d'' where
  key := h.key.trans h'.key
  defects id := (h.defects id).trans (h'.defects id)
  toDef id hnil := (h.toDef id hnil).trans (h'.toDef id ((h.defects_eq_nil id).mp hnil))

theorem perm_flaws (id : String) (hafter : d.body.after.Perm d'.body.after)
    (hkeys : (d.children.map key).Perm (d'.children.map key)) :
    (d.flaws id).Perm (d'.flaws id) := by
  have hdelays := hafter.map Prod.fst
  refine .append (.append ?_ ?_) ?_
  · exact (hdelays.filter _).map _
  · exact (perm_repeats (hdelays.filter _)).map _
  · exact (perm_repeats hkeys).map _

theorem arrange_toDef (d : Draft) :
    d.toDef.arrange = ⟨DraftBody.toBody d.body,
      Keyed.ofList StateDef.key (d.children.map fun c => c.toDef.arrange)⟩ := by
  obtain ⟨body, children⟩ := d
  rw [toDef, StateDef.arrange, arrangeAll_toDefs]
  rfl

/-- Drafts come to the same if their states agree in what they declare themselves, and their
children in their keys, their defects and, if these are none, their definitions. -/
theorem alike_of_children (hbody : DraftBody.Agrees d.body d'.body)
    (hkeys : (d.children.map key).Perm (d'.children.map key))
    (hdefects : ∀ id, (d.children.flatMap fun c => c.defects (id ++ "." ++ c.key)).Perm
      (d'.children.flatMap fun c => c.defects (id ++ "." ++ c.key)))
    (hdefs : (∀ c ∈ d.children, ∃ id, c.defects id = []) →
      (d.children.map fun c => c.toDef.arrange).Perm (d'.children.map fun c => c.toDef.arrange)) :
    Alike d d' where
  key := hbody.key
  defects id :=
    (d.perm_flaws_append id).trans
      (((perm_flaws id hbody.after hkeys).append (hdefects id)).trans
        (d'.perm_flaws_append id).symm)
  toDef id hnil := by
    have hnone := List.nil_perm.mp (hnil ▸ d.perm_flaws_append id)
    obtain ⟨hflaws, hbelow⟩ := List.append_eq_nil_iff.mp hnone
    have hsound := flaws_eq_nil.mp hflaws
    have hperm := hdefs fun c hc => ⟨_, List.flatMap_eq_nil_iff.mp hbelow c hc⟩
    -- Without flaws the keys of the children are different, so there is one order to bring them in.
    have hnodup : ((d.children.map fun c => c.toDef.arrange).map StateDef.key).Nodup := by
      rw [← arrangeAll_toDefs, keys_toDefs]
      exact hsound.keys
    rw [arrange_toDef, arrange_toDef, hbody.toBody_eq hsound.whole hsound.delays,
      Keyed.ofList_eq_of_perm hperm hnodup]

theorem Shuffled.alike (h : Shuffled declarations declarations') (key : String) :
    Alike (declared key declarations) (declared key declarations') := by
  have hc := collects_declared key declarations
  have hc' := collects_declared key declarations'
  have hchildren :
      (declared key declarations).children.Perm (declared key declarations').children := by
    rw [hc.children, hc'.children]
    exact h.perm.filterMap _
  exact alike_of_children (agrees_of_inLane key h.lane (h.perm.filterMap _))
    (hchildren.map _) (fun id => hchildren.flatMap_right _) fun _ => hchildren.map _

theorem Alike.child {child child' : Draft} (h : Alike child child') (key : String)
    (front back : List Declaration) :
    Alike (declared key (front ++ .state child :: back))
      (declared key (front ++ .state child' :: back)) := by
  have hchildren (c : Draft) : (declared key (front ++ .state c :: back)).children =
      front.filterMap Declaration.child? ++ c :: back.filterMap Declaration.child? := by
    rw [(collects_declared key _).children, List.filterMap_append]
    rfl
  apply alike_of_children
  · apply agrees_of_inLane
    · intro lane
      simp [inLane, Declaration.lane?]
    · rw [List.filterMap_append, List.filterMap_append]
      exact .refl _
  · simp only [hchildren, List.map_append, List.map_cons, h.key]
    exact .refl _
  · intro id
    simp only [hchildren, List.flatMap_append, List.flatMap_cons, h.key]
    exact ((h.defects _).append_right _).append_left _
  · intro hnone
    rw [hchildren] at hnone
    obtain ⟨id, hnil⟩ := hnone child (by simp)
    simp only [hchildren, List.map_append, List.map_cons, h.toDef id hnil]
    exact .refl _

theorem Reordered.alike (h : Reordered declarations declarations') (key : String) :
    Alike (declared key declarations) (declared key declarations') := by
  induction h generalizing key with
  | shuffle h => exact h.alike key
  | child front back inner _ ih => exact (ih inner).child key front back
  | trans _ _ ih ih' => exact (ih key).trans (ih' key)

theorem Alike.build_eq_ok_iff (h : Alike d d') {m : Definition} :
    d.build = .ok m ↔ d'.build = .ok m := by
  rw [build_eq_ok, build_eq_ok, ← h.key, ← h.defects_eq_nil]
  refine and_congr_right fun hnil => ?_
  have hroot : Definition.ofRoot d.toDef = .ofRoot d'.toDef := by
    rw [Definition.ofRoot, Definition.mk.injEq]
    exact h.toDef _ hnil
  rw [hroot]

/-- **The order of declarations does not matter** but for that within a lane. From the same
declarations in another order, at any depth, the same definition is built, and so the same tree or
the same list of its defects; or there are defects both times, and they are the same ones. -/
theorem build_of_reordered (h : Reordered declarations declarations') (key : String) :
    ((∃ m, (declared key declarations).build = .ok m) ↔
      ∃ m, (declared key declarations').build = .ok m) ∧
    (∀ m m', (declared key declarations).build = .ok m →
      (declared key declarations').build = .ok m' →
      m = m' ∧ ∀ catalog, StateTree.build m catalog = StateTree.build m' catalog) ∧
    ∀ defects defects', (declared key declarations).build = .error defects →
      (declared key declarations').build = .error defects' → defects.Perm defects' := by
  have halike := h.alike key
  refine ⟨exists_congr fun m => halike.build_eq_ok_iff, fun m m' hm hm' => ?_,
    fun defects defects' he he' => ?_⟩
  · rw [halike.build_eq_ok_iff, hm', Except.ok.injEq] at hm
    exact ⟨hm.symm, fun catalog => by rw [hm]⟩
  · obtain ⟨rfl, -⟩ := build_eq_error.mp he
    obtain ⟨rfl, -⟩ := build_eq_error.mp he'
    rw [← halike.key]
    exact halike.defects _

/-- A gate that opens on a push and shuts after a while. -/
def gateOpen : List Declaration :=
  [.on "push" (.goto "shut"), .entry "creak", .after (.ofMillis 500) (.goto "shut"),
    .after (.ofMillis 900) .targetless]

def gate (opened : List Declaration) : List Declaration :=
  [.initial "open", .exit "lock", .state (declared "open" opened), .state (new "shut")]

/-- It is the same gate when all is declared the other way round, for the gate and for its state. -/
theorem gate_reordered :
    Reordered (gate gateOpen) (gate gateOpen.reverse).reverse ∧
    ∃ m, (declared "Gate" (gate gateOpen)).build = .ok m ∧
      (declared "Gate" (gate gateOpen.reverse).reverse).build = .ok m := by
  have hinner : Shuffled gateOpen gateOpen.reverse :=
    ⟨(List.reverse_perm _).symm, fun lane => by cases lane <;> rfl⟩
  have houter : Shuffled (gate gateOpen.reverse) (gate gateOpen.reverse).reverse :=
    ⟨(List.reverse_perm _).symm, fun lane => by cases lane <;> rfl⟩
  have hgate : Reordered (gate gateOpen) (gate gateOpen.reverse).reverse :=
    .trans (.child [.initial "open", .exit "lock"] [.state (new "shut")] "open" (.shuffle hinner))
      (.shuffle houter)
  have hbuild : (declared "Gate" (gate gateOpen)).build =
      .ok (.ofRoot (declared "Gate" (gate gateOpen)).toDef) := by rfl
  obtain ⟨hbuilds, hsame, -⟩ := build_of_reordered hgate "Gate"
  obtain ⟨m, hm⟩ := hbuilds.mp ⟨_, hbuild⟩
  exact ⟨hgate, m, (hsame _ m hbuild hm).1 ▸ hbuild, hm⟩

end Draft

end Statechart
