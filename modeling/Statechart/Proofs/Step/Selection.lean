import Statechart.Proofs.Step.Plans

/-!
# Selection

Which transition handles an event. The search goes outward from the leaf, and it stops at the first
active state that has a candidate for the event (`StateTree.select_eq_some_iff`).

A state may declare an event and have no candidates for it. Such a declaration does not stop the
search: the event is handled further out, just as if the state did not declare it. So the innermost
declaration shadows the outer ones (`StateTree.Shadows`) as long as it has a candidate, or none of
the outer ones has (`StateTree.select_of_build`).
-/

namespace Statechart

/-- A state has no candidates for an event that it does not declare. -/
theorem Node.transitions_eq_nil {n : Node} {event : String} (h : event ∉ n.events) :
    n.transitions event = [] := by
  have hnone : Keyed.find? Prod.fst event n.on.entries = none := by
    refine List.find?_eq_none.mpr fun e he heq => h ?_
    exact List.mem_map.mpr ⟨e, he, by simpa using heq⟩
  rw [Node.transitions, Dict.find?, hnone]
  rfl

namespace StateTree

variable {t : StateTree} {c : Configuration} {event : String} {tr : Transition} {s : StateId}
  {above below : List StateId}

/-! ### Where the search stops -/

/-- The search stops at a state with a candidate, once the states below it have none. -/
theorem select_eq_some_iff :
    t.select c event = some tr ↔ ∃ above s below, c.states = above ++ s :: below ∧
      ((t.node s).transitions event).head? = some tr ∧
      ∀ x ∈ below, (t.node x).transitions event = [] := by
  simp only [select, Configuration.innermostFirst, List.findSome?_eq_some_iff,
    List.head?_eq_none_iff]
  constructor
  · rintro ⟨below, s, above, hsplit, htr, hbelow⟩
    refine ⟨above.reverse, s, below.reverse, ?_, htr, by simpa using hbelow⟩
    simpa using congrArg List.reverse hsplit
  · rintro ⟨above, s, below, hsplit, htr, hbelow⟩
    exact ⟨below.reverse, s, above.reverse, by simp [hsplit], htr, by simpa using hbelow⟩

theorem select_eq_none_iff :
    t.select c event = none ↔ ∀ s ∈ c.states, (t.node s).transitions event = [] := by
  simp [select, Configuration.innermostFirst]

/-- States without candidates at the inner end make no difference. -/
theorem select_append (hbelow : ∀ x ∈ below, (t.node x).transitions event = []) :
    t.select ⟨above ++ below⟩ event = t.select ⟨above⟩ event := by
  have hnone : t.select ⟨below⟩ event = none := select_eq_none_iff.mpr hbelow
  rw [select, Configuration.innermostFirst] at hnone ⊢
  rw [List.reverse_append, List.findSome?_append, hnone, Option.none_or]
  rfl

/-! ### The innermost declaration -/

/-- Of the active states that declare the event, `s` is the innermost one. -/
structure Declares (t : StateTree) (c : Configuration) (event : String) (above : List StateId)
    (s : StateId) (below : List StateId) : Prop where
  active : c.states = above ++ s :: below
  declared : event ∈ (t.node s).events
  undeclared : ∀ x ∈ below, event ∉ (t.node x).events

theorem exists_declares (hs : s ∈ c.states) (hevent : event ∈ (t.node s).events) :
    ∃ above x below, t.Declares c event above x below := by
  obtain ⟨states⟩ := c
  -- from the leaf outward, as the search goes
  induction states using List.reverseRecOn with
  | nil => cases hs
  | append_singleton states leaf ih =>
    by_cases hleaf : event ∈ (t.node leaf).events
    · exact ⟨states, leaf, [], rfl, hleaf, by simp⟩
    · have hne : s ≠ leaf := fun heq => hleaf (heq ▸ hevent)
      have hmem : s ∈ states := by simpa [hne] using hs
      obtain ⟨above, x, below, hactive, hdeclared, hundeclared⟩ := ih hmem
      simp only at hactive
      refine ⟨above, x, below ++ [leaf], by simp [hactive], hdeclared, ?_⟩
      simpa [or_imp, forall_and, hleaf] using hundeclared

namespace Declares

variable (h : t.Declares c event above s below)
include h

theorem candidates_below : ∀ x ∈ below, (t.node x).transitions event = [] :=
  fun x hx => Node.transitions_eq_nil (h.undeclared x hx)

/-- With a candidate the innermost declaration decides. -/
theorem select_eq (hne : (t.node s).transitions event ≠ []) :
    t.select c event = ((t.node s).transitions event).head? := by
  obtain ⟨tr, htr⟩ := Option.ne_none_iff_exists'.mp (mt List.head?_eq_none_iff.mp hne)
  rw [htr]
  exact select_eq_some_iff.mpr ⟨above, s, below, h.active, htr, h.candidates_below⟩

/-- Without candidates it is passed by. -/
theorem select_eq_above (hnil : (t.node s).transitions event = []) :
    t.select c event = t.select ⟨above⟩ event := by
  have hc : c = ⟨above ++ s :: below⟩ := congrArg Configuration.mk h.active
  rw [hc]
  exact select_append (List.forall_mem_cons.mpr ⟨hnil, h.candidates_below⟩)

/-- The states above are those that have `s` below them. -/
theorem mem_above_iff (ht : t.WellFormed) (hc : c.IsPath t) {a : StateId} :
    a ∈ above ↔ t.Below a s := by
  have hactive : c.states = (above ++ [s]) ++ below := by rw [h.active, List.append_assoc]; rfl
  have hchain := hactive ▸ hc.child
  have hroot := hactive ▸ hc.root
  rw [List.head?_append_of_ne_nil _ (by simp)] at hroot
  have hpath := ht.eq_path_of_isChain (List.isChain_append.mp hchain).1 hroot
  have hnodup := ht.nodup_path s
  have hmem : a ∈ above ++ [s] ↔ a ∈ t.ancestors s := by rw [hpath, mem_path]
  rw [← hpath] at hnodup
  rw [Below, ← hmem, List.mem_append, List.mem_singleton]
  constructor
  · intro ha
    exact ⟨.inl ha, (List.nodup_append.mp hnodup).2.2 a ha s (by simp) |>.symm⟩
  · rintro ⟨ha | ha, hne⟩
    · exact ha
    · exact absurd ha.symm hne

end Declares

/-- The innermost declaration of the event shadows the outer ones: its first candidate handles the
event, no transition of a state above does, and the event is unhandled exactly if no active state
declares it or the innermost one that does has no candidates. -/
structure Shadows (t : StateTree) (c : Configuration) (event : String) : Prop where
  first : ∀ above s below, t.Declares c event above s below →
    t.select c event = ((t.node s).transitions event).head?
  inner : ∀ above s below, t.Declares c event above s below →
    ∀ tr, t.select c event = some tr → ¬t.Below tr.source s
  unhandled : t.select c event = none ↔ (∀ s ∈ c.states, event ∉ (t.node s).events) ∨
    ∃ above s below, t.Declares c event above s below ∧ (t.node s).transitions event = []

theorem WellFormed.source_of_head? (ht : t.WellFormed)
    (h : ((t.node s).transitions event).head? = some tr) : tr.source = s :=
  ht.source s tr (mem_declared_of_mem_transitions (List.mem_of_head? h))

/-- That the first candidate of the innermost declaration handles the event is all there is to
shadowing. -/
theorem WellFormed.shadows_of_first (ht : t.WellFormed)
    (first : ∀ above s below, t.Declares c event above s below →
      t.select c event = ((t.node s).transitions event).head?) : t.Shadows c event where
  first := first
  inner := by
    rintro above s below hs tr htr ⟨-, hne⟩
    rw [first above s below hs] at htr
    exact hne (ht.source_of_head? htr).symm
  unhandled := by
    constructor
    · intro hnone
      by_cases hevent : ∃ s ∈ c.states, event ∈ (t.node s).events
      · obtain ⟨s, hs, hevent⟩ := hevent
        obtain ⟨above, x, below, hx⟩ := exists_declares hs hevent
        rw [first above x below hx] at hnone
        exact .inr ⟨above, x, below, hx, List.head?_eq_none_iff.mp hnone⟩
      · push Not at hevent
        exact .inl hevent
    · rintro (hevent | ⟨above, s, below, hs, hnil⟩)
      · exact select_eq_none_iff.mpr fun s hs => Node.transitions_eq_nil (hevent s hs)
      · rw [first above s below hs, hnil]
        rfl

theorem WellFormed.shadows_iff (ht : t.WellFormed) (hc : c.IsPath t) :
    t.Shadows c event ↔ ∀ above s below, t.Declares c event above s below →
      (t.node s).transitions event = [] →
      ∀ a, t.Below a s → (t.node a).transitions event = [] := by
  constructor
  · intro h above s below hs hnil a ha
    have hnone := h.unhandled.mpr (.inr ⟨above, s, below, hs, hnil⟩)
    rw [hs.select_eq_above hnil] at hnone
    exact select_eq_none_iff.mp hnone a ((hs.mem_above_iff ht hc).mpr ha)
  · intro h
    refine ht.shadows_of_first fun above s below hs => ?_
    by_cases hnil : (t.node s).transitions event = []
    · rw [hs.select_eq_above hnil, hnil]
      refine select_eq_none_iff.mpr fun a ha => ?_
      exact h above s below hs hnil a ((hs.mem_above_iff ht hc).mp ha)
    · exact hs.select_eq hnil

/-- **The innermost candidate handles the event.** The innermost declaration decides if it has a
candidate. Without one it is passed by, as if it were not there, and the search goes on above it.
So it shadows the outer declarations exactly if it has a candidate or no state above has one. -/
theorem select_of_build {d : Definition} {catalog : Catalog} (h : StateTree.build d catalog = .ok t)
    (hc : c.IsPath t) (event : String) :
    (∀ tr, t.select c event = some tr ↔ ∃ above below, c.states = above ++ tr.source :: below ∧
      ((t.node tr.source).transitions event).head? = some tr ∧
      ∀ x ∈ below, (t.node x).transitions event = []) ∧
    (t.select c event = none ↔ ∀ s ∈ c.states, (t.node s).transitions event = []) ∧
    (∀ above s below, t.Declares c event above s below →
      ((t.node s).transitions event ≠ [] →
        t.select c event = ((t.node s).transitions event).head?) ∧
      ((t.node s).transitions event = [] → t.select c event = t.select ⟨above⟩ event)) ∧
    (t.Shadows c event ↔ ∀ above s below, t.Declares c event above s below →
      (t.node s).transitions event = [] →
      ∀ a, t.Below a s → (t.node a).transitions event = []) := by
  have ht := wellFormed_of_build h
  refine ⟨fun tr => select_eq_some_iff.trans ⟨?_, ?_⟩, select_eq_none_iff, ?_, ht.shadows_iff hc⟩
  · rintro ⟨above, s, below, hactive, htr, hbelow⟩
    obtain rfl := ht.source_of_head? htr
    exact ⟨above, below, hactive, htr, hbelow⟩
  · rintro ⟨above, below, hactive, htr, hbelow⟩
    exact ⟨above, tr.source, below, hactive, htr, hbelow⟩
  · intro above s below hs
    exact ⟨hs.select_eq, hs.select_eq_above⟩

end StateTree

/-! ### A phone -/

/-- A phone sounds when it rings, except where it is silent: there the event is declared without
candidates. -/
def phone : Definition := .ofRoot
  ⟨{ (default : StateBody) with
      key := "phone", initial := some "silent"
      on := .ofList [("ring", .one (TransitionDef.targetless.action "sound")),
        ("turn", .one (.goto "silent"))] },
    [⟨{ (default : StateBody) with key := "loud" }, []⟩,
     ⟨{ (default : StateBody) with
        key := "silent"
        on := .ofList [("ring", .many []), ("turn", .many [.goto "loud", .goto "silent"])] }, []⟩]⟩

def phoneTree : StateTree := (Layout.of phone).toTree

theorem build_phone : StateTree.build phone .everything = .ok phoneTree := rfl

theorem phone_isPath : (Configuration.initial phoneTree).IsPath phoneTree := by
  have ht := StateTree.wellFormed_of_build build_phone
  exact ht.isPath_of_endsAt ht.endsAt_initial

/-- Where the phone is silent, the first candidate for a turn is the one that counts. -/
theorem phone_turned :
    phoneTree.Declares (.initial phoneTree) "turn" [⟨0⟩] ⟨2⟩ [] ∧
    phoneTree.select (.initial phoneTree) "turn" = some ⟨⟨2⟩, some ⟨1⟩, [], none⟩ ∧
    phoneTree.Below ⟨0⟩ ⟨2⟩ ∧ (phoneTree.node ⟨0⟩).transitions "turn" ≠ [] := by
  have hturn : phoneTree.Declares (.initial phoneTree) "turn" [⟨0⟩] ⟨2⟩ [] :=
    ⟨rfl, by decide +kernel, by simp⟩
  obtain ⟨-, -, hselect, -⟩ := StateTree.select_of_build build_phone phone_isPath "turn"
  have hfirst := (hselect _ _ _ hturn).1 (by decide +kernel)
  exact ⟨hturn, hfirst, ⟨by decide +kernel, by decide⟩, by decide +kernel⟩

/-- **A silent phone sounds when it rings:** the innermost declaration does not shadow the outer
one. -/
theorem silent_phone_rings :
    StateTree.build phone .everything = .ok phoneTree ∧
    (Configuration.initial phoneTree).IsPath phoneTree ∧
    phoneTree.Declares (.initial phoneTree) "ring" [⟨0⟩] ⟨2⟩ [] ∧
    phoneTree.Below ⟨0⟩ ⟨2⟩ ∧
    phoneTree.select (.initial phoneTree) "ring" = some ⟨⟨0⟩, none, [⟨0⟩], none⟩ ∧
    ¬phoneTree.Shadows (.initial phoneTree) "ring" := by
  have hring : phoneTree.Declares (.initial phoneTree) "ring" [⟨0⟩] ⟨2⟩ [] :=
    ⟨rfl, by decide +kernel, by simp⟩
  have hbelow : phoneTree.Below ⟨0⟩ ⟨2⟩ := ⟨by decide +kernel, by decide⟩
  have hselect : phoneTree.select (.initial phoneTree) "ring" = some ⟨⟨0⟩, none, [⟨0⟩], none⟩ := rfl
  refine ⟨build_phone, phone_isPath, hring, hbelow, hselect, fun h => ?_⟩
  exact h.inner _ _ _ hring _ hselect hbelow

end Statechart
