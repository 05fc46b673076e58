import Statechart.Definition.Builder
import Statechart.Proofs.Step.Splice

/-!
# Plans

What a plan amounts to, for all trees that were built. The domain of a transition is the deepest
state strictly above both its ends, or the root if one of them is the root (`domain_of_build`). The
plan keeps the active path down to the domain, leaves the rest from the inside out, and enters from
the outside in what leads to the target and on along initial children (`plan_of_build`).

So the active states afterwards depend on the target alone: they are those of an arrival at it
(`Configuration.arrival`).
-/

namespace Statechart

/-- The active states after an arrival at `g`: the way down to it, and on along initial children. -/
def Configuration.arrival (t : StateTree) (g : StateId) : Configuration :=
  ⟨t.path g ++ (t.initialPath g).drop 1⟩

namespace StateTree

variable {t : StateTree} {c : Configuration} {tr : Transition} {s g leaf : StateId}

/-! ### Arrivals -/

/-- A machine starts with an arrival at the root. -/
theorem WellFormed.arrival_root (ht : t.WellFormed) :
    Configuration.arrival t t.root = .initial t := by
  obtain ⟨below, hbelow⟩ := ht.exists_initialPath t.root
  rw [Configuration.arrival, path, ancestors_of_parent_none ht.root_parent, Configuration.initial,
    hbelow]
  rfl

theorem WellFormed.endsAt_arrival (ht : t.WellFormed) (hg : g.index < t.size) :
    (Configuration.arrival t g).EndsAt t (t.bottom g) where
  path := (ht.path_bottom g).symm
  known := ht.bottom_lt_size hg
  leaf := ht.children_bottom g

/-- **A step with a target is an arrival at it**, wherever it starts from. -/
theorem WellFormed.plan_arrival (ht : t.WellFormed) (hc : c.EndsAt t leaf) (hs : s ∈ c.states)
    (htr : tr ∈ (t.node s).declared) (hg : tr.target = some g) :
    (t.plan c tr).configuration = .arrival t g := by
  have hafter := (ht.declared_target hc hs htr hg).endsAt.path
  rw [Configuration.arrival, ← ht.path_bottom, ← hafter]

theorem plan_targetless (t : StateTree) (c : Configuration) (htarget : tr.target = none) :
    (t.plan c tr).exit = [] ∧ (t.plan c tr).entry = [] ∧ (t.plan c tr).configuration = c := by
  simp [plan, htarget]

/-- What a plan runs: the actions on exit, those of the transition, and those on entry. -/
theorem actions_plan (t : StateTree) (c : Configuration) (tr : Transition) :
    (t.plan c tr).actions = (t.plan c tr).exit.flatMap (fun s => (t.node s).exit) ++ tr.actions ++
      (t.plan c tr).entry.flatMap fun s => (t.node s).entry := by
  unfold plan
  split <;> simp

theorem source_plan (t : StateTree) (c : Configuration) (tr : Transition) :
    (t.plan c tr).source = tr.source := by
  unfold plan
  split <;> rfl

/-! ### What a plan leaves and enters -/

/-- **A plan splits the active path at the domain.** What is kept ends at the domain, what is left
and what is entered lie below it, each without repetition. The new path goes through the target and
on along initial children. The source is left and the target is entered, unless they are the root.
The actions are those on exit from the inside out, those of the transition, and those on entry from
the outside in. Without a target nothing is left or entered. -/
theorem plan_of_build {d : Definition} {catalog : Catalog} (h : StateTree.build d catalog = .ok t)
    (hc : c.IsPath t) (hs : s ∈ c.states) (htr : tr ∈ (t.node s).declared) :
    let step := t.plan c tr
    step.source = s ∧
    (tr.target = none → step.exit = [] ∧ step.entry = [] ∧ step.configuration = c) ∧
    (∀ g, tr.target = some g →
      step.domain = t.domain s g ∧
      (∃ kept, kept.getLast? = some step.domain ∧ c.states = kept ++ step.exit.reverse ∧
        step.configuration.states = kept ++ step.entry) ∧
      step.configuration.IsPath t ∧
      (∃ above below, step.configuration.states = above ++ g :: below ∧
        t.initialPath g = g :: below) ∧
      (s ∈ step.exit ↔ s ≠ t.root) ∧ (g ∈ step.entry ↔ g ≠ t.root)) ∧
    step.exit.Nodup ∧ step.entry.Nodup ∧
    step.actions = step.exit.flatMap (fun s => (t.node s).exit) ++ tr.actions ++
      step.entry.flatMap fun s => (t.node s).entry := by
  have ht := StateTree.wellFormed_of_build h
  obtain ⟨leaf, hleaf⟩ := ht.isPath_iff.mp hc
  obtain ⟨kept, leaf', hspliced⟩ := ht.plan_splice hleaf hs htr
  have hsource := ht.source s tr htr
  intro step
  refine ⟨(t.source_plan c tr).trans hsource, t.plan_targetless c, ?_, ?_, ?_, t.actions_plan c tr⟩
  · intro g hg
    have htarget := ht.declared_target hleaf hs htr hg
    have hdomain : step.domain = t.domain tr.source g := by simp only [step, plan, hg]
    obtain ⟨above, habove⟩ := List.getLast?_eq_some_iff.mp (ht.getLast?_path g)
    obtain ⟨below, hbelow⟩ := ht.exists_initialPath g
    refine ⟨hsource ▸ hdomain, ⟨_, hdomain ▸ ht.getLast?_path _, htarget.before, htarget.after⟩,
      ht.isPath_of_endsAt htarget.endsAt, ⟨above, below, ?_, hbelow⟩,
      ht.source_mem_exit_iff hleaf hs htr (by simp [hg]), ht.target_mem_entry_iff hleaf hs htr hg⟩
    rw [ht.plan_arrival hleaf hs htr hg, Configuration.arrival, habove, hbelow]
    simp
  · have hnodup := hspliced.before ▸ hc.nodup
    exact List.nodup_reverse.mp (List.nodup_append.mp hnodup).2.1
  · have hnodup := hspliced.after ▸ (ht.isPath_of_endsAt hspliced.endsAt).nodup
    exact (List.nodup_append.mp hnodup).2.1

end StateTree

/-! ### A tuner -/

/-- A tuner receives one of two bands while it is on, at a volume that can be turned. It goes off by
itself. -/
def tuner : Definition := .ofRoot <| Draft.toDef <|
  ((Draft.new "tuner").initial "on").state ((Draft.new "off").on "power" (.goto "on")) |>.state
    ((((((Draft.new "on").initial "fm").entry "light").on "power" (.goto "off")).on "volume"
      (TransitionDef.targetless.action "turn")).after (.ofMillis 50) (.goto "off")
      |>.state ((Draft.new "am").on "band" (.goto "fm"))
      |>.state (((Draft.new "fm").exit "fade").on "band" (.goto "am")))

def tunerTree : StateTree := (Layout.of tuner).toTree

theorem build_tuner : StateTree.build tuner .everything = .ok tunerTree := rfl

/-- When the tuner is switched off, the band and the state in which it is on are left. -/
theorem tuner_plan :
    let c := Configuration.initial tunerTree
    let tr : Transition := ⟨⟨2⟩, some ⟨1⟩, [], none⟩
    let step := tunerTree.plan c tr
    c.IsPath tunerTree ∧ tr ∈ (tunerTree.node ⟨2⟩).declared ∧ step.exit = [⟨4⟩, ⟨2⟩] ∧
    ∃ kept, kept.getLast? = some step.domain ∧ c.states = kept ++ step.exit.reverse ∧
      step.configuration.states = kept ++ step.entry := by
  intro c tr step
  have ht := StateTree.wellFormed_of_build build_tuner
  have hc : c.IsPath tunerTree := ht.isPath_of_endsAt ht.endsAt_initial
  have htr : tr ∈ (tunerTree.node ⟨2⟩).declared := by decide +kernel
  have hs : ⟨2⟩ ∈ c.states := by decide +kernel
  obtain ⟨-, -, hplan, -⟩ := StateTree.plan_of_build build_tuner hc hs htr
  obtain ⟨-, hkept, -⟩ := hplan ⟨1⟩ rfl
  exact ⟨hc, htr, by decide +kernel, hkept⟩

/-! ### Domains -/

/-- **The domain is the deepest state strictly above both ends**, unless one of them is the root;
then it is the root. It does not matter which end is which. So a transition with a target leaves its
source and enters its target, unless they are the root, which is never left or entered. -/
theorem StateTree.domain_of_build {d : Definition} {catalog : Catalog} {t : StateTree}
    (h : StateTree.build d catalog = .ok t) :
    (∀ source target : StateId, source.index < t.size → target.index < t.size →
      (source ≠ t.root → target ≠ t.root →
        t.Below (t.domain source target) source ∧ t.Below (t.domain source target) target ∧
        ∀ x, t.Below x source → t.Below x target → x ∈ t.ancestors (t.domain source target)) ∧
      (source = t.root ∨ target = t.root → t.domain source target = t.root) ∧
      t.domain source target = t.domain target source) ∧
    ∀ c : Configuration, c.IsPath t → ∀ s ∈ c.states, ∀ tr ∈ (t.node s).declared,
      (∀ g, tr.target = some g →
        (s ∈ (t.plan c tr).exit ↔ s ≠ t.root) ∧ (g ∈ (t.plan c tr).entry ↔ g ≠ t.root)) ∧
      t.root ∉ (t.plan c tr).exit ∧ t.root ∉ (t.plan c tr).entry := by
  have ht := StateTree.wellFormed_of_build h
  constructor
  · intro source target hs hg
    refine ⟨?_, ht.domain_eq_root hs hg, ht.domain_comm hs hg⟩
    intro hs' hg'
    have hiff (x : StateId) := ht.mem_ancestors_domain (x := x) hs hg hs' hg'
    obtain ⟨hsource, htarget⟩ := (hiff _).mp (ht.self_mem_ancestors _)
    exact ⟨hsource, htarget, fun x hxs hxg => (hiff x).mpr ⟨hxs, hxg⟩⟩
  · intro c hc s hs tr htr
    obtain ⟨leaf, hleaf⟩ := ht.isPath_iff.mp hc
    refine ⟨fun g hg => ⟨?_, ?_⟩, ht.root_not_mem_plan hleaf hs htr⟩
    · exact ht.source_mem_exit_iff hleaf hs htr (by simp [hg])
    · exact ht.target_mem_entry_iff hleaf hs htr hg

/-- From one band to the other a tuner stays on, but it does not from the band to where it is on. -/
theorem tuner_domain :
    tunerTree.domain ⟨3⟩ ⟨4⟩ = ⟨2⟩ ∧ tunerTree.Below ⟨2⟩ ⟨3⟩ ∧ tunerTree.domain ⟨3⟩ ⟨2⟩ = ⟨0⟩ ∧
    tunerTree.domain ⟨3⟩ ⟨2⟩ = tunerTree.domain ⟨2⟩ ⟨3⟩ ∧ tunerTree.Below ⟨0⟩ ⟨2⟩ := by
  have hon : tunerTree.domain ⟨3⟩ ⟨4⟩ = ⟨2⟩ := rfl
  have hoff : tunerTree.domain ⟨3⟩ ⟨2⟩ = ⟨0⟩ := rfl
  obtain ⟨hdomain, -⟩ := StateTree.domain_of_build build_tuner
  obtain ⟨hbands, -, -⟩ := hdomain ⟨3⟩ ⟨4⟩ (by decide) (by decide)
  obtain ⟨hband, -, hcomm⟩ := hdomain ⟨3⟩ ⟨2⟩ (by decide) (by decide)
  have hbelow := (hbands (by decide) (by decide)).1
  have hbelow' := (hband (by decide) (by decide)).2.1
  rw [hon] at hbelow
  rw [hoff] at hbelow'
  exact ⟨hon, hbelow, hoff, hcomm, hbelow'⟩

end Statechart
