import Statechart.Proofs.Interpreter.Lifecycle
import Statechart.Proofs.Machine.Bindings
import Statechart.Proofs.Tree.Keys

/-!
# Snapshots and the states they name

A snapshot tells the active states by their keys. It names them by paths and it looks paths up, and
the two come to the same as long as no key has a dot in it (`Snapshot.matchesPath_iff`), which is so
of every snapshot of a machine that was built. Put after the id of the machine, the paths are the
ids of the active states (`Interpreter.snapshot_paths`).
-/

namespace Statechart

namespace Snapshot

variable {C : Type} {s : Snapshot C}

theorem strings_eq (s : Snapshot C) : s.strings = Text.trail s.value := rfl

/-- **The paths that are found active are those that are named.** -/
theorem matchesPath_iff (h : Text.Dotless s.value) (path : String) :
    s.matchesPath path = true ↔ path ∈ s.strings := by
  rw [matchesPath, List.isPrefixOf_iff_prefix, strings_eq, Text.mem_trail]
  constructor
  · intro hpre
    exact ⟨Text.split path, Text.split_ne_nil path, hpre, Text.join_split path⟩
  · rintro ⟨front, hne, hpre, rfl⟩
    rwa [Text.split_join hne fun key hkey => h key (hpre.subset hkey)]

end Snapshot

namespace StateTree

variable {t : StateTree} {c : Configuration}

/-- A state that is not there has no key, so no dot in it. -/
theorem Named.dotless_key (hn : t.Named) (s : StateId) : '.' ∉ (t.node s).key.toList := by
  rcases Nat.lt_or_ge s.index t.size with hs | hs
  · exact (hn.key s hs).2.1
  · have hnone : t.nodes[s.index]? = none := Array.getElem?_eq_none hs
    rw [node, node?, hnone]
    exact List.not_mem_nil

theorem Named.dotless_value (hn : t.Named) (c : Configuration) : Text.Dotless (c.value t) := by
  intro key hkey
  obtain ⟨s, -, rfl⟩ := List.mem_map.mp hkey
  exact hn.dotless_key s

/-- **The ids of the active states go on from that of the machine** as their keys do one after
another. -/
theorem Named.idsBelowRoot_eq (hn : t.Named) (ht : t.WellFormed) {leaf : StateId}
    (hc : c.EndsAt t leaf) :
    c.idsBelowRoot t = (Text.trail (c.value t)).map fun path => t.id ++ "." ++ path := by
  obtain ⟨rest, hpath⟩ := List.head?_eq_some_iff.mp (ht.head?_path hc.known)
  have hids := hn.ids_path ht hc.known
  rw [keys, hpath, List.map_cons, List.map_cons, Text.trail_cons, List.cons.injEq] at hids
  rw [Configuration.idsBelowRoot, Configuration.ids, Configuration.value, hc.path, hpath]
  exact hids.2

end StateTree

namespace Interpreter

/-- **Snapshots name the active states.** A path is found active in a snapshot exactly if it is one
of those that it names, if there is no dot in a key, as in no snapshot of an interpreter, whatever
it is about; and the paths that a running interpreter names are the ids of the active states below
the root without the id of the machine, outermost first. -/
theorem snapshot_paths (C : Type) :
    (∀ s : Snapshot C, Text.Dotless s.value →
      ∀ path, s.matchesPath path = true ↔ path ∈ s.strings) ∧
    ∀ {d : Definition} {host : Implementations C} {m : Machine C}, Machine.build d host = .ok m →
      (∀ i : Interpreter C, i.machine = m → Text.Dotless i.snapshot.value) ∧
      ∀ i : Interpreter C, Reachable m i → i.status = .running →
        i.snapshot.strings.map (fun path => m.id ++ "." ++ path) =
          i.configuration.idsBelowRoot m.tree := by
  refine ⟨fun s => Snapshot.matchesPath_iff, fun {d host m} hm => ?_⟩
  have hn := (StateTree.named_of_build (Machine.tree_of_build hm)).1
  constructor
  · rintro i rfl
    exact hn.dotless_value i.configuration
  · intro i hi hs
    have hcoherent := hi.coherent hm
    have htree : i.tree = m.tree := congrArg Machine.tree hi.machine
    obtain ⟨leaf, hleaf⟩ := hcoherent.running hs
    have hids := hn.idsBelowRoot_eq (htree ▸ hcoherent.tree) (htree ▸ hleaf)
    rw [hids, Snapshot.strings_eq, snapshot, value, htree, Machine.id]

end Interpreter

/-- A ferry at sea is found there, and found in a calm there, but not in any other calm. -/
theorem ferryAtSea_paths : ferryAtSea.snapshot.strings = ["sea", "sea.calm"] ∧
    ferryAtSea.snapshot.matchesPath "sea" = true ∧
    ferryAtSea.snapshot.matchesPath "sea.calm" = true ∧
    ferryAtSea.snapshot.matchesPath "calm" = false ∧
    ferryAtSea.configuration.idsBelowRoot ferryMachine.tree = ["ferry.sea", "ferry.sea.calm"] := by
  have hrunning : ferryAtSea.status = .running := by decide +kernel
  have hstrings : ferryAtSea.snapshot.strings = ["sea", "sea.calm"] := by decide +kernel
  obtain ⟨hmatches, hbuilt⟩ := Interpreter.snapshot_paths Nat
  obtain ⟨hdotless, hids⟩ := hbuilt build_ferry
  have hmachine := reachable_ferryAtSea.machine
  have hiff := hmatches ferryAtSea.snapshot (hdotless ferryAtSea hmachine)
  rw [hstrings] at hiff
  refine ⟨hstrings, (hiff "sea").mpr (by decide), (hiff "sea.calm").mpr (by decide), ?_, ?_⟩
  · exact Bool.eq_false_iff.mpr fun h => absurd ((hiff "calm").mp h) (by decide)
  · rw [← hids ferryAtSea reachable_ferryAtSea hrunning, hstrings]
    rfl

end Statechart
