import Statechart.Keyed

/-!
# Maps from texts

A map is the list of its entries in ascending order of their keys. The order is part of the type,
so two maps with the same contents are equal.
-/

namespace Statechart

/-- A finite map from texts to `α`. -/
structure Dict (α : Type) where
  entries : List (String × α)
  ascending : Keyed.Ascending Prod.fst entries

namespace Dict

variable {α β : Type}

def empty : Dict α := ⟨[], List.Pairwise.nil⟩

instance : Inhabited (Dict α) := ⟨empty⟩

instance [BEq α] : BEq (Dict α) := ⟨fun a b => a.entries == b.entries⟩

/-- The entries of a list, the later of two with one key staying. -/
def ofList (entries : List (String × α)) : Dict α :=
  ⟨Keyed.ofList Prod.fst entries, Keyed.ascending_ofList entries⟩

/-- Put `value` under `key`, in place of what was there. -/
def insert (d : Dict α) (key : String) (value : α) : Dict α :=
  ⟨Keyed.insert Prod.fst (key, value) d.entries, d.ascending.insert⟩

def find? (d : Dict α) (key : String) : Option α :=
  (Keyed.find? Prod.fst key d.entries).map Prod.snd

def keys (d : Dict α) : List String := d.entries.map Prod.fst

def values (d : Dict α) : List α := d.entries.map Prod.snd

def isEmpty (d : Dict α) : Bool := d.entries.isEmpty

/-- Change each value, seeing its key; the keys stay. -/
def mapValues (d : Dict α) (f : String → α → β) : Dict β where
  entries := d.entries.map fun e => (e.1, f e.1 e.2)
  ascending := by
    have := d.ascending
    simpa [Keyed.Ascending, List.pairwise_map] using this

@[simp] theorem keys_mapValues (d : Dict α) (f : String → α → β) :
    (d.mapValues f).keys = d.keys := by
  simp [keys, mapValues]

theorem find?_insert (d : Dict α) (key k : String) (value : α) :
    (d.insert key value).find? k = if key = k then some value else d.find? k := by
  rw [find?, insert, Keyed.find?_insert]
  split <;> rfl

theorem entries_foldl (d : Dict α) (entries : List (String × α)) :
    (entries.foldl (fun d e => d.insert e.1 e.2) d).entries =
      entries.foldl (fun sorted e => Keyed.insert Prod.fst e sorted) d.entries := by
  induction entries generalizing d with
  | nil => rfl
  | cons e rest ih => exact ih _

/-- A map is made by putting in its entries. -/
theorem foldl_insert (d : Dict α) :
    d.entries.foldl (fun d e => d.insert e.1 e.2) empty = d := by
  have hentries := entries_foldl empty d.entries
  have hsame : Keyed.ofList Prod.fst d.entries = d.entries := Keyed.ofList_of_ascending d.ascending
  rw [mk.injEq]
  exact hentries.trans hsame

end Dict

end Statechart
