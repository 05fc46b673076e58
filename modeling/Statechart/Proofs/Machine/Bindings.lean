import Statechart.Proofs.Interpreter.Tables

/-!
# What the numbers of a machine are bound to

Binding looks up each name of a tree once. A tree is only built where all its names are found, so
nothing is missing then, and a machine is refused exactly when its tree is and for the same defects
(`Machine.build_eq_error_iff`). The names are looked up in the order of their numbers, so every
number in a node stands for what was registered last under the name that was written there
(`Machine.build_binds`).
-/

namespace Statechart

/-! ### Tables and how they come about -/

/-- Something that is put into a table of implementations. -/
inductive Registration (C : Type) where
  | action (name : String) (a : Action C)
  | service (name : String) (s : Service)

namespace Registration

variable {C : Type}

/-- The action that is registered under the name, if it is one. -/
def action? (name : String) : Registration C → Option (Action C)
  | .action other a => if other = name then some a else none
  | .service _ _ => none

/-- The service that is registered under the name, if it is one. -/
def service? (name : String) : Registration C → Option Service
  | .service other s => if other = name then some s else none
  | .action _ _ => none

/-- The action that was registered last under the name. -/
def lastAction? (rs : List (Registration C)) (name : String) : Option (Action C) :=
  rs.reverse.findSome? (action? name)

/-- The service that was registered last under the name. -/
def lastService? (rs : List (Registration C)) (name : String) : Option Service :=
  rs.reverse.findSome? (service? name)

end Registration

namespace Implementations

variable {C : Type}

/-- Register an action or a service. -/
def register (host : Implementations C) : Registration C → Implementations C
  | .action name a => host.action name a
  | .service name s => host.service name s

/-- The table with all of a list of registrations, made one after another. -/
def ofRegistrations (rs : List (Registration C)) : Implementations C := rs.foldl register none

theorem ofRegistrations_concat (rs : List (Registration C)) (r : Registration C) :
    ofRegistrations (rs ++ [r]) = (ofRegistrations rs).register r := by
  rw [ofRegistrations, List.foldl_append]
  rfl

/-- **What was registered last under a name is found under it.** -/
theorem find?_ofRegistrations (rs : List (Registration C)) (name : String) :
    (ofRegistrations rs).actions.find? name = Registration.lastAction? rs name ∧
    (ofRegistrations rs).services.find? name = Registration.lastService? rs name := by
  induction rs using List.reverseRecOn with
  | nil => exact ⟨rfl, rfl⟩
  | append_singleton rs r ih =>
    rw [ofRegistrations_concat, Registration.lastAction?, Registration.lastService?,
      List.reverse_concat, List.findSome?_cons, List.findSome?_cons]
    cases r with
    | action other a =>
      refine ⟨?_, ih.2⟩
      simp only [register, action, Dict.find?_insert, Registration.action?]
      split <;> [rfl; exact ih.1]
    | service other s =>
      refine ⟨ih.1, ?_⟩
      simp only [register, service, Dict.find?_insert, Registration.service?]
      split <;> [rfl; exact ih.2]

theorem actions_foldl (host : Implementations C) (entries : List (String × Action C)) :
    (entries.map fun e => Registration.action e.1 e.2).foldl register host =
      { host with
        actions := entries.foldl (fun actions e => actions.insert e.1 e.2) host.actions } := by
  induction entries generalizing host with
  | nil => rfl
  | cons e rest ih => exact ih _

theorem services_foldl (host : Implementations C) (entries : List (String × Service)) :
    (entries.map fun e => Registration.service e.1 e.2).foldl register host =
      { host with
        services := entries.foldl (fun services e => services.insert e.1 e.2) host.services } := by
  induction entries generalizing host with
  | nil => rfl
  | cons e rest ih => exact ih _

end Implementations

/-- Every table is made by registrations. -/
theorem Implementations.exists_registrations {C : Type} (host : Implementations C) :
    ∃ rs, ofRegistrations rs = host := by
  refine ⟨(host.actions.entries.map fun e => .action e.1 e.2) ++
    host.services.entries.map fun e => .service e.1 e.2, ?_⟩
  rw [ofRegistrations, List.foldl_append, actions_foldl, services_foldl]
  simp only [none, Dict.foldl_insert]

/-! ### Binding -/

namespace Machine

variable {C α : Type} {find : String → Option α} {missing : String → Defect} {names : List String}

/-- Nothing is missing where every name is found. -/
theorem exists_bound (h : ∀ name ∈ names, (find name).isSome = true) :
    ∃ bound, bindAll find missing names = .ok bound := by
  refine ⟨names.filterMap find, bindAll_eq_ok_iff.mpr ?_⟩
  induction names with
  | nil => rfl
  | cons name rest ih =>
    obtain ⟨hname, hrest⟩ := List.forall_mem_cons.mp h
    obtain ⟨a, ha⟩ := Option.isSome_iff_exists.mp hname
    rw [List.map_cons, List.filterMap_cons_some ha, List.map_cons, ih hrest, ha]

/-- In a tree that was built every name is one that there is an implementation for. -/
theorem exists_bound_of_build {d : Definition} {host : Implementations C} {t : StateTree}
    (h : StateTree.build d host.catalog = .ok t) :
    (∃ actions, bindAll host.actions.find? (.unknownAction t.id) t.actions = .ok actions) ∧
    ∃ services, bindAll host.services.find? (.unknownService t.id) t.services = .ok services := by
  obtain ⟨-, -, -, hactions, -, hservices⟩ := StateTree.image_of_build h
  have hfits := Definition.wellFormed_of_defects (StateTree.defects_of_build h).1
  constructor
  · refine exists_bound fun name hname => ?_
    obtain ⟨⟨place, s⟩, hx, hmem⟩ := (hactions name).mp hname
    exact (hfits.state place s (Definition.at?_of_mem_places hx)).actions name hmem
  · refine exists_bound fun name hname => ?_
    obtain ⟨⟨place, s⟩, hx, hmem⟩ := (hservices name).mp hname
    exact (hfits.state place s (Definition.at?_of_mem_places hx)).services name hmem

theorem build_of_tree {d : Definition} {host : Implementations C} {t : StateTree}
    (h : StateTree.build d host.catalog = .ok t) : ∃ m, build d host = .ok m ∧ m.tree = t := by
  obtain ⟨⟨actions, hactions⟩, services, hservices⟩ := exists_bound_of_build h
  refine ⟨⟨t, actions.toArray, services.toArray⟩, ?_, rfl⟩
  simp only [build, h, hactions, hservices]

/-- **A machine is refused exactly when its tree is**, and for the same defects. -/
theorem build_eq_error_iff {d : Definition} {host : Implementations C} {defects : List Defect} :
    build d host = .error defects ↔ StateTree.build d host.catalog = .error defects := by
  cases htree : StateTree.build d host.catalog with
  | error defects' => simp only [build, htree, Except.error.injEq]
  | ok t =>
    obtain ⟨m, hm, -⟩ := build_of_tree htree
    simp [hm]

theorem tree_of_build {d : Definition} {host : Implementations C} {m : Machine C}
    (h : build d host = .ok m) : StateTree.build d host.catalog = .ok m.tree := by
  cases htree : StateTree.build d host.catalog with
  | error defects => exact nomatch h.symm.trans (build_eq_error_iff.mpr htree)
  | ok t =>
    obtain ⟨m', hm', rfl⟩ := build_of_tree htree
    rw [Except.ok.inj (h.symm.trans hm')]

variable (m : Machine C) (rs : List (Registration C))

/-- The number stands for the action that was registered last under the name. -/
def Performs (a : ActionId) (name : String) : Prop :=
  ∃ f, Registration.lastAction? rs name = some f ∧ m.actions[a.index]? = some f ∧ m.action a = f

/-- The number stands for the service that was registered last under the name. -/
def Provides (s : ServiceId) (name : String) : Prop :=
  ∃ f, Registration.lastService? rs name = some f ∧ m.services[s.index]? = some f ∧ m.service s = f

/-- All numbers in the node `n` stand for what was registered under the names that the state
declares. -/
structure Binds (n : StateId) (b : StateBody) : Prop where
  entry : List.Forall₂ (m.Performs rs) (m.tree.node n).entry b.entry.items
  exit : List.Forall₂ (m.Performs rs) (m.tree.node n).exit b.exit.items
  on : List.Forall₂ (fun x y => x.1 = y.1 ∧ List.Forall₂
      (fun tr decl => List.Forall₂ (m.Performs rs) tr.actions decl.actions.items) x.2 y.2.items)
    (m.tree.node n).on.entries b.on.entries
  /-- the delays are those of the keys, though in another order -/
  after : ∃ delays : List Delay, delays.Perm (m.tree.node n).after ∧
    List.Forall₂ (fun delay y => Denotes y.1 delay.millis ∧
      List.Forall₂ (m.Performs rs) delay.transition.actions y.2.actions.items)
    delays b.after.entries
  invoke : List.Forall₂ (fun v decl => m.Provides rs v.service decl.service)
    (m.tree.node n).invoke b.invoke.items

variable {m rs} {d : Definition}

/-- The names are looked up in the order of their numbers. -/
theorem exists_of_bindAll {bound : List α} (h : bindAll find missing names = .ok bound) {k : Nat}
    (hk : k < names.length) : ∃ f, find names[k] = some f ∧ bound[k]? = some f := by
  have hlt : k < bound.length := length_of_bindAll h ▸ hk
  have hfound : ((names[k]?).map find) = (bound[k]?).map some := by
    rw [← List.getElem?_map, ← List.getElem?_map, bindAll_eq_ok_iff.mp h]
  rw [List.getElem?_eq_getElem hk, List.getElem?_eq_getElem hlt] at hfound
  exact ⟨bound[k], Option.some.inj hfound, List.getElem?_eq_getElem hlt⟩

/-- **A number stands for what was registered last under its name.** -/
theorem performs_actionName (h : build d (.ofRegistrations rs) = .ok m) {a : ActionId}
    (ha : a.index < m.tree.actions.length) : m.Performs rs a (m.tree.actionName a) := by
  obtain ⟨-, ⟨actions, hactions, hm⟩, -⟩ := parts_of_build h
  obtain ⟨f, hfind, hbound⟩ := exists_of_bindAll hactions ha
  rw [← List.getElem?_toArray, ← hm] at hbound
  refine ⟨f, ?_, hbound, by rw [action, hbound]; rfl⟩
  rw [StateTree.actionName, List.getElem?_eq_getElem ha,
    ← (Implementations.find?_ofRegistrations rs _).1]
  exact hfind

theorem provides_serviceName (h : build d (.ofRegistrations rs) = .ok m) {s : ServiceId}
    (hs : s.index < m.tree.services.length) : m.Provides rs s (m.tree.serviceName s) := by
  obtain ⟨-, -, services, hservices, hm⟩ := parts_of_build h
  obtain ⟨f, hfind, hbound⟩ := exists_of_bindAll hservices hs
  rw [← List.getElem?_toArray, ← hm] at hbound
  refine ⟨f, ?_, hbound, by rw [service, hbound]; rfl⟩
  rw [StateTree.serviceName, List.getElem?_eq_getElem hs,
    ← (Implementations.find?_ofRegistrations rs _).2]
  exact hfind

/-- What is written there is bound, if the numbers stand for what is written. -/
theorem performs_of_map (h : build d (.ofRegistrations rs) = .ok m) {ids : List ActionId}
    {names : List String} (hids : ∀ a ∈ ids, m.HasAction a)
    (hnames : ids.map m.tree.actionName = names) : List.Forall₂ (m.Performs rs) ids names := by
  subst hnames
  exact List.forall₂_map_right_iff.mpr
    (List.forall₂_same.mpr fun a ha => performs_actionName h (hids a ha).1)

theorem binds_of_image (h : build d (.ofRegistrations rs) = .ok m) {n : StateId}
    {place : List String} {s : StateDef} (himage : Image d m.tree n place s) :
    m.Binds rs n s.body := by
  have hcomplete := complete_of_build h
  have hactions := hcomplete.actions n
  have hdeclared : ∀ tr ∈ (m.tree.node n).declared, ∀ a ∈ tr.actions, m.HasAction a :=
    fun tr htr a ha =>
      hactions a (List.mem_append_right _ (List.mem_flatMap.mpr ⟨tr, htr, ha⟩))
  have hon : ∀ x ∈ (m.tree.node n).on.entries, ∀ tr ∈ x.2, ∀ a ∈ tr.actions, m.HasAction a :=
    fun x hx tr htr => hdeclared tr (List.mem_append_left _
      (List.mem_flatten.mpr ⟨x.2, List.mem_map_of_mem hx, htr⟩))
  constructor
  case entry =>
    exact performs_of_map h
      (fun a ha => hactions a (List.mem_append_left _ (List.mem_append_left _ ha))) himage.entry
  case exit =>
    exact performs_of_map h
      (fun a ha => hactions a (List.mem_append_left _ (List.mem_append_right _ ha))) himage.exit
  case on =>
    refine ((List.forall₂_and_left _ _).mpr ⟨hon, himage.on⟩).imp
      fun x y ⟨hx, hkey, hrenders⟩ => ⟨hkey, ?_⟩
    exact ((List.forall₂_and_left _ _).mpr ⟨hx, hrenders⟩).imp fun tr decl ⟨htr, hrender⟩ =>
      performs_of_map h htr hrender.actions
  case after =>
    obtain ⟨delays, hperm, hall⟩ := himage.after
    have hdelays : ∀ delay ∈ delays, ∀ a ∈ delay.transition.actions, m.HasAction a :=
      fun delay hdelay => hdeclared _ (List.mem_append_right _
        (List.mem_map_of_mem (hperm.subset hdelay)))
    refine ⟨delays, hperm, ?_⟩
    exact ((List.forall₂_and_left _ _).mpr ⟨hdelays, hall⟩).imp
      fun delay y ⟨hdelay, hdenotes, _, hrender⟩ =>
        ⟨hdenotes, performs_of_map h hdelay hrender.actions⟩
  case invoke =>
    have hnames : (m.tree.node n).invoke.map (fun v => m.tree.serviceName v.service) =
        s.body.invoke.items.map InvokeDef.service := by
      have hpairs := congrArg (List.map Prod.snd) himage.invoke
      rwa [List.map_map, List.map_map] at hpairs
    have hprovides : List.Forall₂ (fun (v : Invoke) name => m.Provides rs v.service name)
        (m.tree.node n).invoke (s.body.invoke.items.map InvokeDef.service) := by
      rw [← hnames]
      exact List.forall₂_map_right_iff.mpr (List.forall₂_same.mpr fun v hv =>
        provides_serviceName h (hcomplete.services n v hv).1)
    exact List.forall₂_map_right_iff.mp hprovides

/-- **Binding adds no defects and binds what was meant.** A machine is refused exactly when its tree
is, for the same defects, since no name of a tree that was built is missing. In a machine that was
built, from a table however it came about, each number in a node of the tree stands for what was
registered last under the name that the state of that node has in its place. -/
theorem build_binds (d : Definition) (host : Implementations C) :
    (∀ defects, build d host = .error defects ↔
      StateTree.build d host.catalog = .error defects) ∧
    (∀ t, StateTree.build d host.catalog = .ok t →
      (∀ defect, bindAll host.actions.find? (.unknownAction t.id) t.actions ≠ .error defect) ∧
      ∀ defect, bindAll host.services.find? (.unknownService t.id) t.services ≠ .error defect) ∧
    (∃ rs, .ofRegistrations rs = host) ∧
    ∀ m rs, build d host = .ok m → .ofRegistrations rs = host →
      StateTree.build d host.catalog = .ok m.tree ∧
      ∀ n : StateId, n.index < m.tree.size → ∃ place s,
        (d.root.places [])[n.index]? = some (place, s) ∧ m.Binds rs n s.body := by
  refine ⟨fun _ => build_eq_error_iff, fun t ht => ?_, host.exists_registrations, ?_⟩
  · obtain ⟨⟨actions, hactions⟩, services, hservices⟩ := exists_bound_of_build ht
    rw [hactions, hservices]
    exact ⟨nofun, nofun⟩
  · rintro m rs hm rfl
    have htree := tree_of_build hm
    obtain ⟨hsize, himage, -⟩ := StateTree.image_of_build htree
    refine ⟨htree, fun n hn => ?_⟩
    have hplace := List.getElem?_eq_getElem (hsize ▸ hn)
    exact ⟨_, _, hplace, binds_of_image hm (himage n.index _ _ hplace).2.2⟩

end Machine

/-! ### A gong -/

/-- A gong rings at a strike. -/
def gong : Definition := .ofRoot <| Draft.toDef <|
  ((Draft.new "gong").initial "still").state
    ((Draft.new "still").on "strike" (.action .targetless "ring"))

/-- An action that counts so many rings. -/
def rings (n : Nat) : Action Nat := ⟨fun count _ => (count + n, none), fun _ _ _ => []⟩

/-- One ring was meant first, and then two. -/
def gongRegistrations : List (Registration Nat) :=
  [.action "ring" (rings 1), .service "hum" .idle, .action "ring" (rings 2)]

def gongMachine : Machine Nat := .built gong (.ofRegistrations gongRegistrations)

theorem build_gong : Machine.build gong (.ofRegistrations gongRegistrations) = .ok gongMachine :=
  Machine.build_built rfl

/-- The gong rings twice, as was registered last. -/
theorem gong_binds : ∃ place s, (gong.root.places [])[1]? = some (place, s) ∧
    s.body.on.entries.map (fun e => (e.1, e.2.items.flatMap fun t => t.actions.items)) =
      [("strike", ["ring"])] ∧
    gongMachine.Binds gongRegistrations ⟨1⟩ s.body ∧
    Registration.lastAction? gongRegistrations "ring" = some (rings 2) ∧
    gongMachine.action ⟨0⟩ = rings 2 := by
  obtain ⟨-, -, -, hbinds⟩ := Machine.build_binds gong (.ofRegistrations gongRegistrations)
  obtain ⟨-, hplaces⟩ := hbinds gongMachine gongRegistrations build_gong rfl
  obtain ⟨place, s, hplace, hs⟩ := hplaces ⟨1⟩ (by decide)
  cases hplace
  exact ⟨_, _, rfl, rfl, hs, rfl, rfl⟩

end Statechart
