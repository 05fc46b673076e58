import Statechart.Proofs.Json.Records

/-!
# Arrays in the fields of one item or several

A name or a transition is never written as an array. So an array in a field of names or transitions
is read as a list, with one item from each element (`OneOrMany.ofJson?_array_iff_of_bare`).

An invocation may be written as an array, with its fields in their order (`InvokeDef.Spelled`), and
such an array is no list of invocations. So an array in a field of invocations is read as a list or
as a single invocation: `["a", "b"]` is the service `a` under the id `b`
(`OneOrMany.array_spec`).
-/

namespace Statechart

/-! ### One item from each element -/

theorem Json.text?_eq_some_iff {v : Json} {s : String} : text? v = some s ↔ v = .string s := by
  cases v <;> simp [text?]

namespace OneOrMany

variable {α : Type} {read : Json → Option α} {A : List Json} {v : OneOrMany α}

/-- The array is read as a list: each element is read as the item at its place. -/
structure Itemwise (read : Json → Option α) (A : List Json) (v : OneOrMany α) : Prop where
  size : v.size = A.length
  item : ∀ (i : Nat) (a : Json), A[i]? = some a → read a = v.items[i]?

theorem itemwise_iff : v.Itemwise read A ↔ Json.readAll read A = some v.items := by
  rw [Json.readAll_eq_some_iff]
  constructor
  · intro h
    have hlength : v.items.length = A.length := h.size
    refine List.ext_getElem (by simp [hlength]) fun i hi hi' => ?_
    simp only [List.length_map] at hi hi'
    rw [List.getElem_map, List.getElem_map, h.item i _ (List.getElem?_eq_getElem hi),
      List.getElem?_eq_getElem hi']
  · intro h
    refine ⟨by simpa [size] using (congrArg List.length h).symm, fun i a ha => ?_⟩
    have hitem := congrArg (·[i]?) h
    simp only [List.getElem?_map, ha, Option.map_some] at hitem
    cases hv : v.items[i]? with
    | none => simp [hv] at hitem
    | some item => simpa [hv] using hitem

/-- An array is read as a list if every element is an item, and as a single item otherwise. -/
theorem ofJson?_array_iff :
    OneOrMany.ofJson? read (.array A) = some v ↔
      (∃ items, v = .many items ∧ v.Itemwise read A) ∨
      ∃ item, v = .one item ∧ Json.readAll read A = none ∧ read (.array A) = some item := by
  have hmany (items : List α) : Itemwise read A (.many items) ↔ Json.readAll read A = some items :=
    itemwise_iff
  rw [OneOrMany.ofJson?, Json.list?]
  cases hitems : Json.readAll read A with
  | none =>
    constructor
    · intro h
      obtain ⟨item, hitem, rfl⟩ := Option.map_eq_some_iff.mp h
      exact .inr ⟨item, rfl, rfl, hitem⟩
    · rintro (⟨items, rfl, h⟩ | ⟨item, rfl, -, hitem⟩)
      · cases hitems.symm.trans ((hmany items).mp h)
      · exact Option.map_eq_some_iff.mpr ⟨item, hitem, rfl⟩
  | some items =>
    constructor
    · intro h
      cases h
      exact .inl ⟨items, rfl, (hmany items).mpr hitems⟩
    · rintro (⟨items', rfl, h⟩ | ⟨item, rfl, hnone, -⟩)
      · cases hitems.symm.trans ((hmany items').mp h)
        rfl
      · cases hnone

/-- What is never written as an array is read from one as a list. -/
theorem ofJson?_array_iff_of_bare (hbare : read (.array A) = none) :
    OneOrMany.ofJson? read (.array A) = some v ↔ ∃ items, v = .many items ∧ v.Itemwise read A := by
  rw [ofJson?_array_iff, hbare]
  simp

end OneOrMany

/-! ### Invocations -/

/-- The array has the fields of an invocation in their order. -/
inductive InvokeDef.Spelled : List Json → InvokeDef → Prop
  | service (service : String) : Spelled [.string service] ⟨service, none⟩
  | withoutId (service : String) : Spelled [.string service, .null] ⟨service, none⟩
  | withId (service id : String) : Spelled [.string service, .string id] ⟨service, some id⟩

namespace InvokeDef

variable {A : List Json} {d : InvokeDef}

theorem Spelled.isProper (h : Spelled A d) : (Json.array A).isProper := by
  cases h <;> rfl

/-- A text is no invocation on its own. -/
theorem Spelled.readAll_eq_none (h : Spelled A d) : Json.readAll ofJson? A = none := by
  cases h <;> rfl

theorem ofJson?_singleton (v : Json) :
    ofJson? (.array [v]) = (Json.text? v).map fun service => ⟨service, none⟩ := by
  cases v <;> rfl

theorem ofJson?_pair (v w : Json) :
    ofJson? (.array [v, w]) = (Json.text? v).bind fun service =>
      (Json.Fields.nullable [("id", w)] "id" Json.text?).map fun id => ⟨service, id⟩ := by
  cases v <;> rfl

theorem ofJson?_array_iff : ofJson? (.array A) = some d ↔ Spelled A d := by
  refine ⟨fun h => ?_, fun h => by cases h <;> rfl⟩
  match A, h with
  | [], h => cases h
  | [v], h =>
    rw [ofJson?_singleton, Option.map_eq_some_iff] at h
    obtain ⟨service, hservice, rfl⟩ := h
    obtain rfl := Json.text?_eq_some_iff.mp hservice
    exact .service service
  | [v, w], h =>
    rw [ofJson?_pair, Option.bind_eq_some_iff] at h
    obtain ⟨service, hservice, h⟩ := h
    obtain rfl := Json.text?_eq_some_iff.mp hservice
    cases w with
    | null => cases h; exact .withoutId service
    | string id => cases h; exact .withId service id
    | _ => cases h
  | _ :: _ :: _ :: _, h => cases h

end InvokeDef

/-- Arrays as invocations: a list of them, or the fields of a single one. -/
theorem invokesOfJson?_array_iff {A : List Json} {v : OneOrMany InvokeDef} :
    invokesOfJson? (.array A) = some v ↔
      ((Json.array A).isProper ∧ ∃ items, v = .many items ∧ v.Itemwise InvokeDef.ofJson? A) ∨
      ∃ d, v = .one d ∧ InvokeDef.Spelled A d := by
  rw [invokesOfJson?, Option.ite_none_right_eq_some, OneOrMany.ofJson?_array_iff]
  simp only [InvokeDef.ofJson?_array_iff]
  constructor
  · rintro ⟨hproper, hmany | ⟨d, rfl, -, hd⟩⟩
    · exact .inl ⟨hproper, hmany⟩
    · exact .inr ⟨d, rfl, hd⟩
  · rintro (⟨hproper, hmany⟩ | ⟨d, rfl, hd⟩)
    · exact ⟨hproper, .inl hmany⟩
    · exact ⟨hd.isProper, .inr ⟨d, rfl, hd.readAll_eq_none, hd⟩⟩

/-- An invocation in its array is not what the elements are read as. -/
theorem InvokeDef.Spelled.not_itemwise {A : List Json} {d : InvokeDef} (h : Spelled A d)
    (v : OneOrMany InvokeDef) : ¬v.Itemwise ofJson? A := by
  intro hitems
  cases h.readAll_eq_none.symm.trans (OneOrMany.itemwise_iff.mp hitems)

/-! ### All three kinds of items -/

/-- **An array in a field of one item or several** is a list of names or of transitions, with one
item from each element. In a field of invocations it is such a list, too, unless it begins with a
text: then it is a single invocation, and none of its elements is one. -/
theorem OneOrMany.array_spec (A : List Json) :
    (∀ v, namesOfJson? (.array A) = some v ↔
      (Json.array A).isProper ∧ ∃ items, v = .many items ∧ v.Itemwise Json.text? A) ∧
    (∀ v, candidatesOfJson? (.array A) = some v ↔
      (Json.array A).isProper ∧ ∃ items, v = .many items ∧ v.Itemwise TransitionDef.ofJson? A) ∧
    (∀ v, invokesOfJson? (.array A) = some v ↔
      ((Json.array A).isProper ∧ ∃ items, v = .many items ∧ v.Itemwise InvokeDef.ofJson? A) ∨
      ∃ d, v = .one d ∧ InvokeDef.Spelled A d) ∧
    (∀ v, invokesOfJson? (.array A) = some v →
      (v.Itemwise InvokeDef.ofJson? A ↔ ∀ name, A.head? ≠ some (.string name))) := by
  refine ⟨fun v => ?_, fun v => ?_, fun v => invokesOfJson?_array_iff, fun v h => ?_⟩
  · rw [namesOfJson?, Option.ite_none_right_eq_some, ofJson?_array_iff_of_bare rfl]
  · have hbare : TransitionDef.ofJson? (.array A) = none := by
      unfold TransitionDef.ofJson?
      split <;> rfl
    rw [candidatesOfJson?, Option.ite_none_right_eq_some, ofJson?_array_iff_of_bare hbare]
  · rcases invokesOfJson?_array_iff.mp h with ⟨-, items, rfl, hitems⟩ | ⟨d, rfl, hd⟩
    · refine iff_of_true hitems fun name hname => ?_
      obtain ⟨rest, rfl⟩ := List.head?_eq_some_iff.mp hname
      have hread := itemwise_iff.mp hitems
      cases hread
    · refine iff_of_false (hd.not_itemwise _) fun hhead => ?_
      cases hd <;> exact hhead _ rfl

/-- Arrays in an array are invocations, each in its own. -/
theorem array_spec_of_arrays :
    let A : List Json := [.array [.string "a"], .array [.string "b", .string "c"]]
    invokesOfJson? (.array A) = some (.many [⟨"a", none⟩, ⟨"b", some "c"⟩]) ∧
    (OneOrMany.many [⟨"a", none⟩, ⟨"b", some "c"⟩]).Itemwise InvokeDef.ofJson? A := by
  intro A
  obtain ⟨-, -, -, hitems⟩ := OneOrMany.array_spec A
  refine ⟨rfl, (hitems _ rfl).mpr fun name hname => ?_⟩
  cases hname

/-! ### Two services -/

/-- A machine that invokes two services, to all appearances. -/
def twoServices : Json :=
  .object [("id", .string "m"), ("invoke", .array [.string "a", .string "b"])]

/-- **The second service is the id of the first:** an array with two elements is read as one
invocation, though neither element is one. -/
theorem twoServices_is_one :
    (Definition.ofText? twoServices.compact).map (fun d => d.root.body.invoke) =
      some (.one ⟨"a", some "b"⟩) ∧
    [Json.string "a", .string "b"].map InvokeDef.ofJson? = [none, none] ∧
    ¬(OneOrMany.one ⟨"a", some "b"⟩).Itemwise InvokeDef.ofJson? [.string "a", .string "b"] := by
  refine ⟨by decide +kernel, rfl, fun h => ?_⟩
  cases h.size

end Statechart
