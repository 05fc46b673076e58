import Statechart.Proofs.Step.Splice

/-!
# Lookups while a step is planned

Where a tree has no state of some number, `StateTree.node` gives an empty node, and every walk ends
when its bound is reached. The functions here have no such default: they come to nothing if a state
is not in the tree, if a walk is cut short, or if the source of a transition is not active. On the
active states of a machine they give what the functions with defaults give
(`WellFormed.select?_eq`, `WellFormed.plan?_eq`), so no default is ever used.
-/

namespace Statechart

/-! ### Results that are there -/

theorem mapM_eq_some_map {α β : Type} {f : α → Option β} {g : α → β} {l : List α}
    (h : ∀ a ∈ l, f a = some (g a)) : l.mapM f = some (l.map g) := by
  induction l with
  | nil => rfl
  | cons a rest ih =>
    obtain ⟨ha, hrest⟩ := List.forall_mem_cons.mp h
    simp [List.mapM_cons, ha, ih hrest]

/-- What each step keeps the fold keeps, and no step comes to nothing. -/
theorem foldlM_eq_some_foldl {α β : Type} (P : β → Prop) {f : β → α → Option β} {g : β → α → β}
    {l : List α} (h : ∀ b, P b → ∀ a ∈ l, f b a = some (g b a) ∧ P (g b a)) {b : β} (hb : P b) :
    l.foldlM f b = some (l.foldl g b) := by
  induction l generalizing b with
  | nil => rfl
  | cons a rest ih =>
    obtain ⟨ha, hkept⟩ := h b hb a List.mem_cons_self
    rw [List.foldlM_cons, ha, List.foldl_cons]
    exact ih (fun b hb a ha => h b hb a (List.mem_cons_of_mem _ ha)) hkept

theorem findSomeM?_eq_some {α β : Type} {f : α → Option (Option β)} {g : α → Option β} {l : List α}
    (h : ∀ a ∈ l, f a = some (g a)) : l.findSomeM? f = some (l.findSome? g) := by
  induction l with
  | nil => rfl
  | cons a rest ih =>
    obtain ⟨ha, hrest⟩ := List.forall_mem_cons.mp h
    rw [List.findSomeM?, ha, List.findSome?_cons]
    cases hg : g a with
    | none => exact ih hrest
    | some b => rfl

namespace StateTree

/-! ### Without defaults -/

/-- What the nodes of some states have. -/
def fields? {α : Type} (t : StateTree) (field : Node → α) (states : List StateId) :
    Option (List α) :=
  states.mapM fun s => (t.node? s).map field

def parentOrSelf? (t : StateTree) (s : StateId) : Option StateId :=
  (t.node? s).map fun n => n.parent.getD s

/-- The walk up from `s`; it must arrive at a state without a parent. -/
def climb? (t : StateTree) : Nat → StateId → Option (List StateId)
  | 0, s => do
    let n ← t.node? s
    if n.parent = none then return [s] else none
  | fuel + 1, s => do
    let n ← t.node? s
    match n.parent with
    | none => return [s]
    | some p => return s :: (← t.climb? fuel p)

/-- The walk down from `s`; it must arrive at a state without an initial child. -/
def descend? (t : StateTree) : Nat → StateId → Option (List StateId)
  | 0, s => do
    let n ← t.node? s
    if n.initial = none then return [s] else none
  | fuel + 1, s => do
    let n ← t.node? s
    match n.initial with
    | none => return [s]
    | some c => return s :: (← t.descend? fuel c)

/-- The walk up from `s`; it must arrive at a state that is not deeper than `depth`. -/
def raiseTo? (t : StateTree) (depth : Nat) : Nat → StateId → Option StateId
  | 0, s => do
    let n ← t.node? s
    if depth < n.depth then none else return s
  | fuel + 1, s => do
    let n ← t.node? s
    if depth < n.depth then t.raiseTo? depth fuel (← t.parentOrSelf? s) else return s

/-- The walk up from two states; they must meet. -/
def meet? (t : StateTree) : Nat → StateId → StateId → Option StateId
  | 0, a, b => if a = b then some a else none
  | fuel + 1, a, b =>
    if a = b then some a else do t.meet? fuel (← t.parentOrSelf? a) (← t.parentOrSelf? b)

def lca? (t : StateTree) (a b : StateId) : Option StateId := do
  let a ← t.raiseTo? (← t.node? b).depth t.size a
  let b ← t.raiseTo? (← t.node? a).depth t.size b
  t.meet? t.size a b

def domain? (t : StateTree) (source target : StateId) : Option StateId := do
  let common ← t.lca? source target
  if common = source ∨ common = target then t.parentOrSelf? common else return common

def select? (t : StateTree) (c : Configuration) (event : String) : Option (Option Transition) :=
  c.innermostFirst.findSomeM? fun s => (t.node? s).map fun n => (n.transitions event).head?

/-- What it means to take a transition, the source of which must be active. -/
def plan? (t : StateTree) (c : Configuration) (transition : Transition) : Option Step :=
  if transition.source ∈ c.states then
    match transition.target with
    | none => some ⟨transition.source, transition.source, [], [], transition.actions, c⟩
    | some target => do
      let domain ← t.domain? transition.source target
      let above ← t.climb? t.size target
      let below ← t.descend? t.size target
      let exit := c.innermostFirst.takeWhile fun s => s != domain
      let entry := (above.takeWhile fun s => s != domain).reverse ++ below.drop 1
      let exitActions ← t.fields? Node.exit exit
      let entryActions ← t.fields? Node.entry entry
      return {
        source := transition.source
        domain
        exit
        entry
        actions := exitActions.flatten ++ transition.actions ++ entryActions.flatten
        configuration := ⟨(c.states.takeWhile fun s => s != domain) ++ domain :: entry⟩ }
  else none

/-! ### Nothing is missing -/

variable {t : StateTree} {s p a b : StateId}

theorem node?_eq (hs : s.index < t.size) : t.node? s = some (t.node s) := by
  have hnode : t.node? s = some t.nodes[s.index] := Array.getElem?_eq_getElem hs
  rw [node, hnode]
  rfl

theorem fields?_eq {α : Type} (field : Node → α) {states : List StateId}
    (h : ∀ s ∈ states, s.index < t.size) :
    t.fields? field states = some (states.map fun s => field (t.node s)) :=
  mapM_eq_some_map fun s hs => by rw [node?_eq (h s hs), Option.map_some]

theorem parentOrSelf?_eq (hs : s.index < t.size) :
    t.parentOrSelf? s = some (t.parentOrSelf s) := by
  rw [parentOrSelf?, node?_eq hs, Option.map_some, parentOrSelf]

theorem WellFormed.climb?_eq (ht : t.WellFormed) {fuel : Nat} (hs : s.index < t.size)
    (hfuel : s.index ≤ fuel) : t.climb? fuel s = some (t.climb fuel s) := by
  induction fuel generalizing s with
  | zero =>
    cases hp : (t.node s).parent with
    | none => simp [climb?, climb, node?_eq hs, hp]
    | some p =>
      have := (ht.parent_lt s p hp).1
      omega
  | succ fuel ih =>
    cases hp : (t.node s).parent with
    | none => simp [climb?, climb, node?_eq hs, hp]
    | some p =>
      have hlt := ht.parent_lt s p hp
      simp [climb?, climb, node?_eq hs, hp, ih (s := p) (by omega) (by omega)]

theorem WellFormed.descend?_eq (ht : t.WellFormed) {fuel : Nat} (hs : s.index < t.size)
    (hfuel : t.size ≤ s.index + fuel + 1) : t.descend? fuel s = some (t.descend fuel s) := by
  induction fuel generalizing s with
  | zero =>
    cases hc : (t.node s).initial with
    | none => simp [descend?, descend, node?_eq hs, hc]
    | some c =>
      have := ht.initial_lt hc
      omega
  | succ fuel ih =>
    cases hc : (t.node s).initial with
    | none => simp [descend?, descend, node?_eq hs, hc]
    | some c =>
      have hlt := ht.initial_lt hc
      simp [descend?, descend, node?_eq hs, hc, ih (s := c) hlt.2.1 (by omega)]

theorem WellFormed.raiseTo?_eq (ht : t.WellFormed) (depth fuel : Nat) (hs : s.index < t.size)
    (hfuel : (t.node s).depth ≤ depth + fuel) :
    t.raiseTo? depth fuel s = some (t.raiseTo depth fuel s) := by
  induction fuel generalizing s with
  | zero =>
    have hd : ¬ depth < (t.node s).depth := by omega
    simp [raiseTo?, raiseTo, node?_eq hs, hd]
  | succ fuel ih =>
    by_cases hd : depth < (t.node s).depth
    · obtain ⟨p, hp⟩ := ht.exists_parent_of_depth hs (by omega)
      have hlt := ht.parent_lt s p hp
      have hdp := ht.depth_child s p hp
      simp [raiseTo?, raiseTo, node?_eq hs, hd, parentOrSelf?_eq hs, parentOrSelf_of_parent hp,
        ih (s := p) (by omega) (by omega)]
    · simp [raiseTo?, raiseTo, node?_eq hs, hd]

theorem WellFormed.meet?_eq (ht : t.WellFormed) (fuel : Nat) (ha : a.index < t.size)
    (hb : b.index < t.size) (hd : (t.node a).depth = (t.node b).depth)
    (hfuel : (t.node a).depth ≤ fuel) : t.meet? fuel a b = some (t.meet fuel a b) := by
  induction fuel generalizing a b with
  | zero =>
    have ha' := ht.eq_root_of_depth ha (by omega)
    have hb' := ht.eq_root_of_depth hb (by omega)
    simp [meet?, meet, ha', hb']
  | succ fuel ih =>
    by_cases hab : a = b
    · simp [meet?, meet, hab]
    · have hpos : 0 < (t.node a).depth := by
        refine Nat.pos_of_ne_zero fun h0 => hab ?_
        rw [ht.eq_root_of_depth ha h0, ht.eq_root_of_depth hb (by omega)]
      obtain ⟨p, hp⟩ := ht.exists_parent_of_depth ha hpos
      obtain ⟨q, hq⟩ := ht.exists_parent_of_depth hb (by omega)
      have hpa := ht.parent_lt a p hp
      have hqb := ht.parent_lt b q hq
      have hdp := ht.depth_child a p hp
      have hdq := ht.depth_child b q hq
      have hmeet := ih (a := p) (b := q) (by omega) (by omega) (by omega) (by omega)
      simp [meet?, meet, hab, parentOrSelf?_eq ha, parentOrSelf?_eq hb,
        parentOrSelf_of_parent hp, parentOrSelf_of_parent hq, hmeet]

theorem WellFormed.lca?_eq (ht : t.WellFormed) (ha : a.index < t.size) (hb : b.index < t.size) :
    t.lca? a b = some (t.lca a b) := by
  have hda := ht.depth_le_index ha
  have hdb := ht.depth_le_index hb
  obtain ⟨har, hdar, -⟩ := ht.raiseTo_spec (t.node b).depth t.size ha (by omega)
  obtain ⟨hbr, hdbr, -⟩ := ht.raiseTo_spec
    (t.node (t.raiseTo (t.node b).depth t.size a)).depth t.size hb (by omega)
  have hra := ht.raiseTo?_eq (t.node b).depth t.size ha (by omega)
  have hrb := ht.raiseTo?_eq (t.node (t.raiseTo (t.node b).depth t.size a)).depth t.size hb
    (by omega)
  have hmeet := ht.meet?_eq t.size har hbr (by omega) (by omega)
  simp [lca?, lca, node?_eq hb, hra, node?_eq har, hrb, hmeet]

theorem WellFormed.domain?_eq (ht : t.WellFormed) (ha : a.index < t.size) (hb : b.index < t.size) :
    t.domain? a b = some (t.domain a b) := by
  have hlca := (ht.lca_spec ha hb).1
  simp only [domain?, domain, ht.lca?_eq ha hb, parentOrSelf?_eq hlca, Option.bind_eq_bind,
    Option.bind_some, Option.pure_def]
  split <;> rfl

variable {c : Configuration} {leaf : StateId}

theorem WellFormed.known (ht : t.WellFormed) (hc : c.EndsAt t leaf) :
    ∀ s ∈ c.states, s.index < t.size :=
  (ht.isPath_of_endsAt hc).known

theorem select?_eq (hknown : ∀ s ∈ c.states, s.index < t.size) (event : String) :
    t.select? c event = some (t.select c event) :=
  findSomeM?_eq_some fun s hs => by
    rw [node?_eq (hknown s (List.mem_reverse.mp hs)), Option.map_some]

/-- **A transition of an active state is planned without defaults.** -/
theorem WellFormed.plan?_eq (ht : t.WellFormed) (hc : c.EndsAt t leaf) {tr : Transition}
    (hs : s ∈ c.states) (htr : tr ∈ (t.node s).declared) : t.plan? c tr = some (t.plan c tr) := by
  obtain rfl := ht.source s tr htr
  obtain ⟨kept, leaf', hspliced⟩ := ht.plan_splice hc hs htr
  have hexit : ∀ s ∈ (t.plan c tr).exit, s.index < t.size := fun s hs =>
    ht.known hc s (hspliced.before ▸ List.mem_append_right _ (List.mem_reverse.mpr hs))
  have hentry : ∀ s ∈ (t.plan c tr).entry, s.index < t.size := fun s hs =>
    ht.known hspliced.endsAt s (hspliced.after ▸ List.mem_append_right _ hs)
  rw [plan?, if_pos hs]
  cases hg : tr.target with
  | none => simp [plan, hg]
  | some g =>
    have hlt := ht.target _ tr htr g hg
    have hsource := ht.known hc _ hs
    have habove : t.climb? t.size g = some (t.ancestors g) :=
      ht.climb?_eq hlt (Nat.le_of_lt hlt)
    have hbelow : t.descend? t.size g = some (t.initialPath g) := ht.descend?_eq hlt (by omega)
    simp only [plan, hg] at hexit hentry
    simp only [ht.domain?_eq hsource hlt, habove, hbelow, Option.bind_eq_bind, Option.bind_some,
      fields?_eq Node.exit hexit, fields?_eq Node.entry hentry, plan, hg, List.flatMap_def,
      Option.pure_def]

end StateTree

end Statechart
