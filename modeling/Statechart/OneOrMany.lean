/-!
# One item or a list of items

Several fields of a definition hold either a single item or a list. Which of the two was written
is remembered, so that a definition is written back as it was read, but it means nothing: two
values are alike when their items are (`OneOrMany.beq_iff`).
-/

namespace Statechart

/-- A single item, or a list of items. -/
inductive OneOrMany (α : Type) where
  | one (item : α)
  | many (items : List α)
  deriving DecidableEq

namespace OneOrMany

variable {α : Type}

instance : Inhabited (OneOrMany α) := ⟨.many []⟩

/-- The items in order. -/
def items : OneOrMany α → List α
  | one item => [item]
  | many items => items

def size (v : OneOrMany α) : Nat := v.items.length

def isEmpty (v : OneOrMany α) : Bool := v.items.isEmpty

/-- Add an item at the end; a single item becomes a list. -/
def push (v : OneOrMany α) (item : α) : OneOrMany α := .many (v.items ++ [item])

/-- Alike when the items are. -/
instance [BEq α] : BEq (OneOrMany α) := ⟨fun a b => a.items == b.items⟩

@[simp] theorem items_one (item : α) : (one item).items = [item] := rfl

@[simp] theorem items_many (items : List α) : (many items).items = items := rfl

@[simp] theorem items_push (v : OneOrMany α) (item : α) :
    (v.push item).items = v.items ++ [item] := rfl

theorem beq_iff [BEq α] [LawfulBEq α] (a b : OneOrMany α) : (a == b) = true ↔ a.items = b.items :=
  beq_iff_eq (a := a.items)

end OneOrMany

end Statechart
