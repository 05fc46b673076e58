import Statechart.Proofs.Definition.Drafts
import Statechart.Proofs.Tree.Qualified
import Statechart.Proofs.Tree.Reports

/-!
# Delays from a draft to a tree

A delay is written into a definition as the text of its milliseconds, and read from there when the
tree is built. Delays of a draft that was built are different and whole, and stay so: the node of a
state has exactly one delay of each length that was declared for it (`Draft.delays_of_build`). But
there is no limit to the text while the number that is read has 64 bits, so a longer delay passes
the first check and is refused by the second one as no whole number of milliseconds
(`eternal_refused`).
-/

namespace Statechart

namespace Draft

variable {d : Draft} {m : Definition} {drafted : List String × Draft}

theorem denotes_toString {n k : Nat} :
    Denotes (toString n) k ↔ k = n ∧ n ≤ Number.greatestWord := by
  rw [← readMillis?_eq_some, readMillis?_toString]
  simp [and_comm, eq_comm]

theorem Keeps.mem_keys {b : DraftBody} {s : StateBody} (h : Keeps b s) {key : String} :
    key ∈ s.after.keys ↔ ∃ e ∈ b.after, key = toString e.1.toMillis := by
  rw [Dict.keys, (h.after.map Prod.fst).mem_iff]
  simp [eq_comm]

theorem whole_of_build (h : d.build = .ok m) (hdrafted : drafted ∈ d.places []) :
    ∀ e ∈ drafted.2.body.after, e.1.IsWholeMillis :=
  (d.defects_eq_nil.mp (build_eq_ok.mp h).1 drafted hdrafted).whole

/-- No two delays of a definition that was built from a draft are the same. -/
theorem not_duplicateDelay (h : d.build = .ok m) (catalog : Catalog) (state : String) (n : Nat) :
    ¬ m.HasDefect catalog (.duplicateDelay state n) := by
  intro hdefect
  cases hdefect with
  | duplicateDelay hs ha hb hne hn hn' =>
    obtain ⟨drafted, -, -, hkeeps⟩ := exists_drafted h hs
    obtain ⟨e, -, rfl⟩ := hkeeps.mem_keys.mp ha
    obtain ⟨f, -, rfl⟩ := hkeeps.mem_keys.mp hb
    rw [← (denotes_toString.mp hn).1, ← (denotes_toString.mp hn').1] at hne
    exact hne rfl

/-- The delays of a definition that cannot be read are those that do not fit into 64 bits. -/
theorem invalidDelay_iff (h : d.build = .ok m) (catalog : Catalog) {state key : String} :
    m.HasDefect catalog (.invalidDelay state key) ↔
      ∃ drafted ∈ d.places [], ∃ e ∈ drafted.2.body.after, Number.greatestWord < e.1.toMillis ∧
        state = Text.join (d.key :: drafted.1) ∧ key = toString e.1.toMillis := by
  have hid : m.id = d.key := (d.build_spec.2.1 m h).1
  constructor
  · intro hdefect
    cases hdefect with
    | invalidDelay hs hkey hinvalid =>
      obtain ⟨drafted, hdrafted, hplace, hkeeps⟩ := exists_drafted h hs
      obtain ⟨e, he, rfl⟩ := hkeeps.mem_keys.mp hkey
      refine ⟨drafted, hdrafted, e, he, ?_, by rw [Definition.idOf, hid, hplace], rfl⟩
      by_contra hle
      exact hinvalid _ (denotes_toString.mpr ⟨rfl, Nat.le_of_not_lt hle⟩)
  · rintro ⟨drafted, hdrafted, e, he, hlong, rfl, rfl⟩
    obtain ⟨s, hs, hkeeps⟩ := exists_made h hdrafted
    rw [← hid]
    refine .invalidDelay hs (hkeeps.mem_keys.mpr ⟨e, he, rfl⟩) fun n hn => ?_
    exact absurd (denotes_toString.mp hn).2 (Nat.not_le_of_lt hlong)

end Draft

/-- Of delays with different lengths each is the only one of its length. -/
theorem Delay.filter_length {delays : List Delay}
    (hascending : delays.Pairwise fun a b => a.millis < b.millis) {delay : Delay}
    (hdelay : delay ∈ delays) :
    (delays.filter fun a => Duration.ofMillis a.millis = Duration.ofMillis delay.millis) =
      [delay] := by
  have hlength (a : Delay) : Duration.ofMillis a.millis = Duration.ofMillis delay.millis ↔
      a.millis = delay.millis :=
    ⟨fun h => by simpa using congrArg Duration.toMillis h, fun h => h ▸ rfl⟩
  obtain ⟨front, back, rfl⟩ := List.append_of_mem hdelay
  obtain ⟨-, hback, hfront⟩ := List.pairwise_append.mp hascending
  have hbefore : front.filter (fun a => a.millis = delay.millis) = [] :=
    List.filter_eq_nil_iff.mpr fun a ha => by
      have := hfront a ha delay List.mem_cons_self
      simp only [decide_eq_true_eq]
      omega
  have hbehind : back.filter (fun a => a.millis = delay.millis) = [] :=
    List.filter_eq_nil_iff.mpr fun a ha => by
      have := (List.pairwise_cons.mp hback).1 a ha
      simp only [decide_eq_true_eq]
      omega
  simp [hlength, List.filter_append, hbefore, hbehind]

namespace Draft

variable {d : Draft} {m : Definition} {drafted : List String × Draft}

/-- The node of a state has one delay of each length that was declared for the state. -/
theorem delays_of_tree (h : d.build = .ok m) {catalog : Catalog} {t : StateTree}
    (ht : StateTree.build m catalog = .ok t) (hdrafted : drafted ∈ d.places []) :
    ∃ n, t.find? (Text.join (d.key :: drafted.1)) = some n ∧
      (t.node n).after.length = drafted.2.body.after.length ∧
      ∀ e ∈ drafted.2.body.after, ∃ delay : Delay,
        ((t.node n).after.filter fun a => Duration.ofMillis a.millis = e.1) = [delay] ∧
        Renders m t n drafted.1 delay.transition e.2 := by
  have hid : m.id = d.key := (d.build_spec.2.1 m h).1
  obtain ⟨s, hs, hkeeps⟩ := exists_made h hdrafted
  obtain ⟨n, hseat⟩ := Definition.exists_seat hs
  obtain ⟨hnil, rfl⟩ := StateTree.defects_of_build ht
  have hfits := Definition.wellFormed_of_defects hnil
  have hkeys : m.ValidKeys := ⟨hfits.machine, fun place s hs => (hfits.state place s hs).keys⟩
  have himage := ((StateTree.image_of_build ht).2.1 n.index drafted.1 s hseat.places_eq).2.2
  obtain ⟨delays, hdelays, hread⟩ := himage.after
  refine ⟨n, hkeys.distinct.find?_eq_some.mpr ⟨?_, ?_⟩, ?_, fun e he => ?_⟩
  · simpa using hseat.lt
  · rw [hseat.node_id, Definition.idOf, hid]
  · rw [← hdelays.length_eq, hread.length_eq, hkeeps.after.length_eq, List.length_map]
  · have hentry : (toString e.1.toMillis, e.2) ∈ s.body.after.entries :=
      hkeeps.after.mem_iff.mpr (List.mem_map.mpr ⟨e, he, rfl⟩)
    obtain ⟨delay, hdelay, hdenotes, -, hrenders⟩ := exists_of_forall₂ hread.flip hentry
    have hlength : Duration.ofMillis delay.millis = e.1 := by
      rw [(denotes_toString.mp hdenotes).1]
      exact e.1.ofMillis_toMillis (whole_of_build h hdrafted e he)
    refine ⟨delay, ?_, hrenders⟩
    rw [← hlength]
    exact Delay.filter_length himage.ascending (hdelays.mem_iff.mp hdelay)

/-- **What becomes of the delays of a draft.** Once the draft is built no delay is found to be
repeated, and those that are refused are those whose milliseconds do not fit into 64 bits. If there
are none, and nothing else is wrong, then the node of each state has exactly one delay of each
length that was declared for the state. -/
theorem delays_of_build (h : d.build = .ok m) (catalog : Catalog) :
    (∀ defects, StateTree.build m catalog = .error defects →
      (∀ state millis, Defect.duplicateDelay state millis ∉ defects) ∧
      ∀ state key, Defect.invalidDelay state key ∈ defects ↔
        ∃ drafted ∈ d.places [], ∃ e ∈ drafted.2.body.after, Number.greatestWord < e.1.toMillis ∧
          state = Text.join (d.key :: drafted.1) ∧ key = toString e.1.toMillis) ∧
    ∀ t, StateTree.build m catalog = .ok t → ∀ drafted ∈ d.places [],
      (∀ e ∈ drafted.2.body.after, e.1.toMillis ≤ Number.greatestWord) ∧
      ∃ n, t.find? (Text.join (d.key :: drafted.1)) = some n ∧
        (t.node n).after.length = drafted.2.body.after.length ∧
        ∀ e ∈ drafted.2.body.after, ∃ delay : Delay,
          ((t.node n).after.filter fun a => Duration.ofMillis a.millis = e.1) = [delay] ∧
          Renders m t n drafted.1 delay.transition e.2 := by
  constructor
  · intro defects hdefects
    have hmem := (StateTree.mem_error_iff hdefects).1
    constructor
    · exact fun state millis hin => not_duplicateDelay h catalog state millis ((hmem _).mp hin).1
    · intro state key
      rw [hmem, ← invalidDelay_iff h catalog]
      exact and_iff_left trivial
  · intro t ht drafted hdrafted
    refine ⟨fun e he => ?_, delays_of_tree h ht hdrafted⟩
    by_contra hlong
    have hdefect := (invalidDelay_iff h catalog).mpr
      ⟨drafted, hdrafted, e, he, Nat.lt_of_not_le hlong, rfl, rfl⟩
    have hfits := Definition.wellFormed_of_defects (StateTree.defects_of_build ht).1
    exact hfits.no_defect _ hdefect

/-- An egg that is done after a time. -/
def egg (delay : Duration) : Draft :=
  declared "Egg" [.initial "soft", .state (declared "soft" [.after delay (.goto "hard")]),
    .state (new "hard")]

/-- The longest delay that passes both checks. -/
def longest : Duration := .ofMillis Number.greatestWord

/-- It is kept to the millisecond. -/
theorem egg_delays : ∃ m t n delay, (egg longest).build = .ok m ∧
    StateTree.build m .everything = .ok t ∧ t.find? "Egg.soft" = some n ∧
    ((t.node n).after.filter fun a => Duration.ofMillis a.millis = longest) = [delay] := by
  have hbuild : (egg longest).build = .ok (.ofRoot (egg longest).toDef) := by rfl
  have htree : StateTree.build (.ofRoot (egg longest).toDef) .everything =
    .ok (Layout.of (.ofRoot (egg longest).toDef)).toTree := by rfl
  obtain ⟨-, n, hn, -, hdelays⟩ := (delays_of_build hbuild .everything).2 _ htree
    (["soft"], declared "soft" [.after longest (.goto "hard")])
    (List.mem_cons_of_mem _ List.mem_cons_self)
  obtain ⟨delay, hdelay, -⟩ := hdelays _ List.mem_cons_self
  exact ⟨_, _, n, delay, hbuild, htree, hn, hdelay⟩

/-- **A delay that is built can be refused by the tree**, though it is a whole number of
milliseconds: one more than fit into 64 bits. -/
theorem eternal_refused :
    (Duration.mk 18446744073709551 616000000).IsWholeMillis ∧
    ∃ m, (egg ⟨18446744073709551, 616000000, by decide⟩).build = .ok m ∧
      StateTree.build m .everything =
        .error [.invalidDelay "Egg.soft" "18446744073709551616"] :=
  ⟨by decide, _, rfl, rfl⟩

end Draft

end Statechart
