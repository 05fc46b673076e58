import Mathlib.Data.List.Nodup
import Statechart.Definition.Reader
import Statechart.Definition.Writer

/-!
# Records and their fields

A record is written as an object with the fields that have a value (`Json.Fields.present`). Where
the names are different every field is found under its name (`Json.Fields.get?_present`), and where
no name is unknown the object is taken for a record.
-/

namespace Statechart

namespace Json

variable {α : Type} {name : String} {names : List String} {write : α → Json}
  {read : Json → Option α}

namespace Fields

/-- The members for the fields that have a value. -/
def present (fields : List (String × Option Json)) : Fields :=
  fields.filterMap fun f => f.2.map (f.1, ·)

variable {fields : List (String × Option Json)}

theorem sublist_present (fields : List (String × Option Json)) :
    ((present fields).map Prod.fst).Sublist (fields.map Prod.fst) := by
  induction fields with
  | nil => exact .slnil
  | cons f rest ih =>
    obtain ⟨name, _ | v⟩ := f
    · exact ih.cons name
    · exact ih.cons_cons name

theorem get?_eq_none (h : name ∉ fields.map Prod.fst) : (present fields).get? name = none := by
  refine Option.map_eq_none_iff.mpr (List.find?_eq_none.mpr fun f hf hname => h ?_)
  obtain rfl : f.1 = name := by simpa using hname
  exact (sublist_present fields).subset (List.mem_map_of_mem hf)

/-- **A field is found under its name.** -/
theorem get?_present {o : Option Json} (hnodup : (fields.map Prod.fst).Nodup)
    (h : (name, o) ∈ fields) : (present fields).get? name = o := by
  induction fields with
  | nil => cases h
  | cons f rest ih =>
    obtain ⟨hf, hrest⟩ := List.nodup_cons.mp hnodup
    obtain ⟨first, o'⟩ := f
    rcases List.mem_cons.mp h with heq | hmem
    · cases heq
      cases o with
      | none => exact (get?_eq_none hf : (present rest).get? _ = none)
      | some v => simp [present, get?]
    · have hne : first ≠ name := by
        rintro rfl
        exact hf (List.mem_map.mpr ⟨_, hmem, rfl⟩)
      have hget := ih hrest hmem
      cases o' with
      | none => exact hget
      | some v => simpa [present, get?, hne] using hget

theorem distinct_present (hnodup : (fields.map Prod.fst).Nodup) :
    distinct names (present fields) = true := by
  refine List.all_eq_true.mpr fun name _ => decide_eq_true ?_
  have hcount := List.nodup_iff_count_le_one.mp (hnodup.sublist (sublist_present fields)) name
  rwa [List.count, List.countP_map, List.countP_eq_length_filter] at hcount

/-! ### Fields that may be left out -/

section Present

variable (hnodup : (fields.map Prod.fst).Nodup)

include hnodup

theorem nullable_present {o : Option String} (h : (name, o.map Json.string) ∈ fields) :
    (present fields).nullable name text? = some o := by
  rw [nullable, get?_present hnodup h]
  cases o <;> rfl

/-- A field that is left out when it is empty is filled in again if the default is what is empty. -/
theorem withDefault_present {a default : α} {empty : Bool} {v : Json}
    (h : (name, if empty then none else some v) ∈ fields) (hread : read v = some a)
    (hempty : empty = true → default = a) :
    (present fields).withDefault name read default = some a := by
  rw [withDefault, get?_present hnodup h]
  cases empty with
  | true => exact congrArg some (hempty rfl)
  | false => exact hread

theorem items_present {items : OneOrMany α} {read : Json → Option (OneOrMany α)}
    (h : (name, if items.isEmpty then none else some (items.toJson write)) ∈ fields)
    (hread : read (items.toJson write) = some items) :
    (present fields).withDefault name read (.many []) = some items := by
  refine withDefault_present hnodup h hread fun hempty => ?_
  cases items with
  | one item => cases hempty
  | many items =>
    obtain rfl : items = [] := List.isEmpty_iff.mp hempty
    rfl

theorem dict_present {d : Dict α} {read : Json → Option (Dict α)}
    (h : (name, if d.isEmpty then none else some (d.toJson write)) ∈ fields)
    (hread : read (d.toJson write) = some d) :
    (present fields).withDefault name read .empty = some d := by
  refine withDefault_present hnodup h hread fun hempty => ?_
  obtain ⟨entries, hascending⟩ := d
  obtain rfl := List.isEmpty_iff.mp hempty
  rfl

end Present

end Fields

/-! ### Objects as records -/

/-- An object with fields of different names is taken for a record. -/
theorem objectFields?_present {fields : List (String × Option Json)}
    (hnodup : (fields.map Prod.fst).Nodup) :
    objectFields? names (.object (Fields.present fields)) = some (Fields.present fields) :=
  if_pos (Fields.distinct_present hnodup)

theorem recordFields?_present {fields : List (String × Option Json)}
    (hnodup : (fields.map Prod.fst).Nodup) :
    recordFields? names (.object (Fields.present fields)) = some (Fields.present fields) :=
  objectFields?_present hnodup

/-! ### Values of fields -/

/-- The items of an array are read one by one. -/
theorem readAll_eq_some_iff {l : List Json} {items : List α} :
    readAll read l = some items ↔ l.map read = items.map some := by
  induction l generalizing items with
  | nil => cases items <;> simp [readAll]
  | cons v rest ih =>
    simp only [readAll, Option.bind_eq_some_iff, Option.map_eq_some_iff, ih]
    constructor
    · rintro ⟨a, ha, items, hrest, rfl⟩
      rw [List.map_cons, List.map_cons, ha, hrest]
    · intro h
      obtain ⟨a, rest', rfl, ha, hrest⟩ := List.map_eq_cons_iff.mp h.symm
      exact ⟨a, ha.symm, rest', hrest.symm, rfl⟩

theorem readAll_map (items : List α) (hread : ∀ a ∈ items, read (write a) = some a) :
    readAll read (items.map write) = some items := by
  rw [readAll_eq_some_iff, List.map_map]
  exact List.map_congr_left hread

theorem list?_map_string (texts : List String) :
    list? text? (.array (texts.map .string)) = some texts :=
  readAll_map texts fun _ _ => rfl

end Json

/-- **One item or several are read back in the form in which they were written**, if an item is not
written as an array. -/
theorem OneOrMany.ofJson?_toJson {α : Type} {write : α → Json} {read : Json → Option α}
    (hread : ∀ a, read (write a) = some a) (hbare : ∀ a, Json.list? read (write a) = none)
    (items : OneOrMany α) : OneOrMany.ofJson? read (items.toJson write) = some items := by
  cases items with
  | one item => rw [OneOrMany.toJson, OneOrMany.ofJson?, hbare, hread]; rfl
  | many items =>
    rw [OneOrMany.toJson, OneOrMany.ofJson?, Json.list?, Json.readAll_map items fun a _ => hread a]

theorem Dict.readMembers_map {α : Type} {write : α → Json} {read : Json → Option α}
    (hread : ∀ a, read (write a) = some a) (entries : List (String × α)) :
    Dict.ofJson?.readMembers read (entries.map fun e => (e.1, write e.2)) = some entries := by
  induction entries with
  | nil => rfl
  | cons e rest ih =>
    rw [List.map_cons, Dict.ofJson?.readMembers, hread, ih]
    rfl

/-- A map is read back: its entries are in order already. -/
theorem Dict.ofJson?_toJson {α : Type} {write : α → Json} {read : Json → Option α}
    (hread : ∀ a, read (write a) = some a) (d : Dict α) :
    Dict.ofJson? read (d.toJson write) = some d := by
  rw [Dict.toJson, Dict.ofJson?, Dict.readMembers_map hread, Option.map_some, Dict.ofList]
  simp only [Keyed.ofList_of_ascending d.ascending]

/-! ### Members as fields -/

namespace Json

variable {α : Type} {name : String} {write : α → Json}

theorem optionalMember_eq (o : Option α) :
    optionalMember name write o = Fields.present [(name, o.map write)] := by
  cases o <;> rfl

theorem itemsMember_eq (items : OneOrMany α) : itemsMember name write items =
    Fields.present [(name, if items.isEmpty then none else some (items.toJson write))] := by
  rw [itemsMember]
  split <;> rfl

theorem dictMember_eq (d : Dict α) : dictMember name write d =
    Fields.present [(name, if d.isEmpty then none else some (d.toJson write))] := by
  rw [dictMember]
  split <;> rfl

end Json

end Statechart
