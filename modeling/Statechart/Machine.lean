import Statechart.Host
import Statechart.Tree.Build

/-!
# Machines

A machine is a tree together with the actions and services its states refer to, bound once and for
all, so that running it looks nothing up by name.
-/

namespace Statechart

/-- A tree with its actions and services, each list in the order of the tree's numbers. -/
structure Machine (C : Type) where
  tree : StateTree
  actions : Array (Action C)
  services : Array Service

namespace Machine

variable {C : Type}

/-- Look up every name, or say which one is missing. -/
def bindAll {α : Type} (find : String → Option α) (missing : String → Defect) :
    List String → Except Defect (List α)
  | [] => .ok []
  | name :: rest =>
    match find name with
    | none => .error (missing name)
    | some a =>
      match bindAll find missing rest with
      | .ok bound => .ok (a :: bound)
      | .error defect => .error defect

/-- Bind a definition to the implementations, or list its defects. -/
def build (d : Definition) (host : Implementations C) : Except (List Defect) (Machine C) :=
  match StateTree.build d host.catalog with
  | .error defects => .error defects
  | .ok tree =>
    match bindAll host.actions.find? (.unknownAction tree.id) tree.actions with
    | .error defect => .error [defect]
    | .ok actions =>
      match bindAll host.services.find? (.unknownService tree.id) tree.services with
      | .error defect => .error [defect]
      | .ok services => .ok ⟨tree, actions.toArray, services.toArray⟩

/-- The machine that comes of a definition. There is nothing in it if the definition has defects. -/
def built (d : Definition) (host : Implementations C) : Machine C :=
  match build d host with
  | .ok m => m
  | .error _ => ⟨⟨#[], [], []⟩, #[], #[]⟩

theorem build_built {d : Definition} {host : Implementations C}
    (h : (build d host).isOk = true) : build d host = .ok (built d host) := by
  unfold built
  cases hbuild : build d host with
  | ok m => rfl
  | error defects => simp [hbuild, Except.isOk, Except.toBool] at h

/-- The id of the machine. -/
def id (m : Machine C) : String := m.tree.id

/-- An action of the machine. -/
def action (m : Machine C) (a : ActionId) : Action C := (m.actions[a.index]?).getD .idle

/-- A service of the machine. -/
def service (m : Machine C) (s : ServiceId) : Service := (m.services[s.index]?).getD .idle

/-- A description of the machine by its size and its names. -/
def text (m : Machine C) : String :=
  "Machine \x7b id: " ++ Text.quote m.id ++ ", states: " ++ toString m.tree.size ++
    ", actions: " ++ Text.quoteList m.tree.actions ++ ", services: " ++
    Text.quoteList m.tree.services ++ " \x7d"

end Machine

end Statechart
