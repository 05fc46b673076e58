import Statechart.Proofs.Json.Documents
import Statechart.Proofs.Json.Records

/-!
# Definitions and their texts

What is written of a definition is read back as it was, single items apart from lists of one item,
and events without candidates too. A field is left out only where the reader fills it in again, no
text of an item is taken for a list, and no name of a field is written twice. So a definition is
read back from its text, if that does not nest too many arrays and objects
(`Definition.ofText?_toText`).
-/

namespace Statechart

open Json (Fields)

/-! ### Records as lists of fields -/

/-- The fields of a transition, with the values that are written. -/
def TransitionDef.fields (t : TransitionDef) : List (String × Option Json) :=
  [("target", t.target.map .string),
    ("actions", if t.actions.isEmpty then none else some (namesToJson t.actions)),
    ("description", t.description.map .string)]

def InvokeDef.fields (d : InvokeDef) : List (String × Option Json) :=
  [("src", some (.string d.service)), ("id", d.id.map .string)]

/-- The fields of a state, given the members for its children. -/
def StateBody.fields (b : StateBody) (states : List (String × Json)) :
    List (String × Option Json) :=
  [("initial", b.initial.map .string),
    ("states", if states.isEmpty then none else some (.object states)),
    ("entry", if b.entry.isEmpty then none else some (namesToJson b.entry)),
    ("exit", if b.exit.isEmpty then none else some (namesToJson b.exit)),
    ("on", if b.on.isEmpty then none else some (b.on.toJson (OneOrMany.toJson TransitionDef.toJson))),
    ("after", if b.after.isEmpty then none else some (b.after.toJson TransitionDef.toJson)),
    ("invoke", if b.invoke.isEmpty then none else some (invokesToJson b.invoke)),
    ("description", b.description.map .string)]

theorem TransitionDef.toJson_eq (t : TransitionDef) :
    t.toJson = .object (Fields.present t.fields) := by
  rw [toJson, Json.optionalMember_eq, Json.itemsMember_eq, Json.optionalMember_eq]
  simp only [Fields.present, ← List.filterMap_append]
  rfl

theorem InvokeDef.toJson_eq (d : InvokeDef) : d.toJson = .object (Fields.present d.fields) := by
  rw [toJson, Json.optionalMember_eq]
  rfl

theorem StateDef.membersWith_eq (b : StateBody) (states : List (String × Json)) :
    membersWith b states = Fields.present (b.fields states) := by
  have hstates : (if states.isEmpty then [] else [("states", Json.object states)]) =
      Fields.present [("states", if states.isEmpty then none else some (Json.object states))] := by
    split <;> rfl
  rw [membersWith, hstates]
  simp only [Json.optionalMember_eq, Json.itemsMember_eq, Json.dictMember_eq, Fields.present,
    ← List.filterMap_append]
  rfl

/-! ### Legible values -/

namespace Json

theorem Fields.legible_present {fields : List (String × Option Json)}
    (h : ∀ f ∈ fields, ∀ v ∈ f.2, v.Legible) : LegibleMembers (present fields) := by
  refine legibleMembers_iff.mpr fun m hm => ?_
  obtain ⟨f, hf, hmem⟩ := List.mem_filterMap.mp hm
  obtain ⟨v, hv, rfl⟩ := Option.map_eq_some_iff.mp hmem
  exact h f hf v hv

theorem legible_text (o : Option String) : ∀ v ∈ o.map Json.string, v.Legible := by
  intro v hv
  obtain ⟨s, -, rfl⟩ := Option.map_eq_some_iff.mp hv
  trivial

theorem legible_unless {v : Json} (empty : Bool) (hv : v.Legible) :
    ∀ w ∈ (if empty then none else some v), w.Legible := by
  intro w hw
  cases empty with
  | true => cases hw
  | false => exact Option.some.inj hw ▸ hv

end Json

theorem OneOrMany.legible_toJson {α : Type} {write : α → Json} (h : ∀ a, (write a).Legible) :
    ∀ items : OneOrMany α, (items.toJson write).Legible
  | .one item => h item
  | .many _ => Json.legibleItems_iff.mpr <| List.forall_mem_map.mpr fun a _ => h a

theorem Dict.legible_toJson {α : Type} {write : α → Json} (h : ∀ a, (write a).Legible)
    (d : Dict α) : (d.toJson write).Legible :=
  Json.legibleMembers_iff.mpr <| List.forall_mem_map.mpr fun e _ => h e.2

theorem legible_namesToJson (names : OneOrMany String) : (namesToJson names).Legible := by
  have hname : ∀ name, (Json.string name).Legible := fun _ => trivial
  exact OneOrMany.legible_toJson hname names

theorem TransitionDef.legible_toJson (t : TransitionDef) : t.toJson.Legible := by
  rw [t.toJson_eq]
  refine Fields.legible_present ?_
  simp only [fields, List.forall_mem_cons]
  exact ⟨Json.legible_text _, Json.legible_unless _ (legible_namesToJson _), Json.legible_text _,
    fun f hf => nomatch hf⟩

theorem InvokeDef.legible_toJson (d : InvokeDef) : d.toJson.Legible := by
  rw [d.toJson_eq]
  refine Fields.legible_present ?_
  simp only [fields, List.forall_mem_cons]
  exact ⟨Json.legible_text (some d.service), Json.legible_text _, fun f hf => nomatch hf⟩

theorem legible_invokesToJson (invokes : OneOrMany InvokeDef) : (invokesToJson invokes).Legible :=
  invokes.legible_toJson InvokeDef.legible_toJson

namespace StateDef

theorem legible_fields (b : StateBody) {states : List (String × Json)}
    (h : Json.LegibleMembers states) : ∀ f ∈ b.fields states, ∀ v ∈ f.2, v.Legible := by
  have htransitions := OneOrMany.legible_toJson TransitionDef.legible_toJson
  simp only [StateBody.fields, List.forall_mem_cons]
  exact ⟨Json.legible_text _, Json.legible_unless _ h, Json.legible_unless _ (legible_namesToJson _),
    Json.legible_unless _ (legible_namesToJson _),
    Json.legible_unless _ (Dict.legible_toJson htransitions _),
    Json.legible_unless _ (Dict.legible_toJson TransitionDef.legible_toJson _),
    Json.legible_unless _ (legible_invokesToJson _), Json.legible_text _, fun f hf => nomatch hf⟩

mutual

theorem legible_members : ∀ d : StateDef, Json.LegibleMembers d.members
  | ⟨body, children⟩ => by
    rw [members, membersWith_eq]
    exact Fields.legible_present (legible_fields body (legible_statesMembers children))

theorem legible_statesMembers : ∀ l : List StateDef, Json.LegibleMembers (statesMembers l)
  | [] => trivial
  | d :: rest => ⟨d.legible_members, legible_statesMembers rest⟩

end

end StateDef

theorem Definition.legible_toJson (d : Definition) : d.toJson.Legible :=
  ⟨trivial, d.root.legible_members⟩

/-! ### Reading back -/

/-- A field for one item or several is looked at as a whole and then read back. -/
theorem OneOrMany.proper_ofJson? {α : Type} {write : α → Json} {read : Json → Option α}
    (hlegible : ∀ a, (write a).Legible) (hread : ∀ a, read (write a) = some a)
    (hbare : ∀ a, Json.list? read (write a) = none) (items : OneOrMany α) :
    (if (items.toJson write).isProper then ofJson? read (items.toJson write) else none) =
      some items := by
  rw [if_pos (legible_toJson hlegible items).isProper]
  exact ofJson?_toJson hread hbare items

theorem namesOfJson?_namesToJson (names : OneOrMany String) :
    namesOfJson? (namesToJson names) = some names := by
  have hlegible : ∀ name, (Json.string name).Legible := fun _ => trivial
  exact OneOrMany.proper_ofJson? hlegible (fun _ => rfl) (fun _ => rfl) names

theorem TransitionDef.ofJson?_toJson (t : TransitionDef) : ofJson? t.toJson = some t := by
  have hnodup : (t.fields.map Prod.fst).Nodup := (by decide : fieldNames.Nodup)
  have htarget : (Fields.present t.fields).nullable "target" Json.text? = some t.target :=
    Fields.nullable_present hnodup (by simp [fields])
  have hactions : (Fields.present t.fields).withDefault "actions" namesOfJson? (.many []) =
      some t.actions :=
    Fields.items_present hnodup (by simp [fields, namesToJson])
      (namesOfJson?_namesToJson t.actions)
  have hdescription : (Fields.present t.fields).nullable "description" Json.text? =
      some t.description :=
    Fields.nullable_present hnodup (by simp [fields])
  have hproper := t.legible_toJson.isProper
  rw [t.toJson_eq] at hproper ⊢
  unfold ofJson?
  rw [if_pos hproper]
  simp only [Json.objectFields?_present hnodup, htarget, hactions, hdescription, Option.bind_some,
    Option.map_some]

theorem InvokeDef.ofJson?_toJson (d : InvokeDef) : ofJson? d.toJson = some d := by
  have hnodup : (d.fields.map Prod.fst).Nodup := (by decide : fieldNames.Nodup)
  have hservice : (Fields.present d.fields).get? "src" = some (.string d.service) :=
    Fields.get?_present hnodup (by simp [fields])
  have hid : (Fields.present d.fields).nullable "id" Json.text? = some d.id :=
    Fields.nullable_present hnodup (by simp [fields])
  rw [d.toJson_eq, ofJson?, Json.recordFields?_present hnodup]
  simp only [Fields.required, hservice, hid, Json.text?, Option.bind_some, Option.map_some]

theorem invokesOfJson?_invokesToJson (invokes : OneOrMany InvokeDef) :
    invokesOfJson? (invokesToJson invokes) = some invokes :=
  OneOrMany.proper_ofJson? InvokeDef.legible_toJson InvokeDef.ofJson?_toJson (fun _ => rfl) invokes

theorem candidatesOfJson?_toJson (candidates : OneOrMany TransitionDef) :
    candidatesOfJson? (candidates.toJson TransitionDef.toJson) = some candidates :=
  OneOrMany.proper_ofJson? TransitionDef.legible_toJson TransitionDef.ofJson?_toJson (fun _ => rfl)
    candidates

namespace StateBody

/-- What a state declares itself is read back from its fields, among any others. -/
theorem ofFields?_present {b : StateBody} {states : List (String × Json)}
    {fields : List (String × Option Json)} (hnodup : (fields.map Prod.fst).Nodup)
    (hfields : b.fields states ⊆ fields) :
    ofFields? b.key (Fields.present fields) = some b := by
  have hinitial : (Fields.present fields).nullable "initial" Json.text? = some b.initial :=
    Fields.nullable_present hnodup (hfields (by simp [StateBody.fields]))
  have hentry : (Fields.present fields).withDefault "entry" namesOfJson? (.many []) =
      some b.entry :=
    Fields.items_present hnodup (hfields (by simp [StateBody.fields, namesToJson]))
      (namesOfJson?_namesToJson b.entry)
  have hexit : (Fields.present fields).withDefault "exit" namesOfJson? (.many []) =
      some b.exit :=
    Fields.items_present hnodup (hfields (by simp [StateBody.fields, namesToJson]))
      (namesOfJson?_namesToJson b.exit)
  have hon : (Fields.present fields).withDefault "on" (Dict.ofJson? candidatesOfJson?) .empty =
      some b.on :=
    Fields.dict_present hnodup (hfields (by simp [StateBody.fields]))
      (Dict.ofJson?_toJson candidatesOfJson?_toJson b.on)
  have hafter : (Fields.present fields).withDefault "after" (Dict.ofJson? TransitionDef.ofJson?)
      .empty = some b.after :=
    Fields.dict_present hnodup (hfields (by simp [StateBody.fields]))
      (Dict.ofJson?_toJson TransitionDef.ofJson?_toJson b.after)
  have hinvoke : (Fields.present fields).withDefault "invoke" invokesOfJson? (.many []) =
      some b.invoke :=
    Fields.items_present hnodup (hfields (by simp [StateBody.fields, invokesToJson]))
      (invokesOfJson?_invokesToJson b.invoke)
  have hdescription : (Fields.present fields).nullable "description" Json.text? =
      some b.description :=
    Fields.nullable_present hnodup (hfields (by simp [StateBody.fields]))
  simp only [ofFields?, hinitial, hentry, hexit, hon, hafter, hinvoke, hdescription,
    Option.bind_some, Option.map_some]

end StateBody

namespace StateDef

/-- The children are read from the member for the states. -/
theorem childrenOfMembers?_eq (members : Fields) : childrenOfMembers? members =
    match members.get? "states" with
    | none => some []
    | some v => statesOfJson? v := by
  induction members with
  | nil => rfl
  | cons m rest ih =>
    obtain ⟨name, v⟩ := m
    rw [childrenOfMembers?]
    by_cases hname : name = "states"
    · simp [hname, Fields.get?]
    · rw [if_neg hname, ih]
      simp [hname, Fields.get?]

theorem statesOfMembers?_cons (key : String) (v : Json) (rest : List (String × Json)) :
    statesOfMembers? ((key, v) :: rest) =
      (readAs? key v).bind fun d => (statesOfMembers? rest).map (d :: ·) := by
  rw [statesOfMembers?, readAs?]
  cases (Json.recordFields? StateBody.fieldNames v).bind (StateBody.ofFields? key) <;>
    cases childrenOfJson? v <;> cases statesOfMembers? rest <;> rfl

/-- **A state is read back from its fields**, among any others, if its children are. -/
theorem readAs?_present {b : StateBody} {children : List StateDef}
    {fields : List (String × Option Json)} (hnodup : (fields.map Prod.fst).Nodup)
    (hfields : b.fields (statesMembers children) ⊆ fields)
    (hchildren : statesOfMembers? (statesMembers children) = some children) :
    readAs? b.key (.object (Fields.present fields)) = some ⟨b, children⟩ := by
  have hstates : (Fields.present fields).get? "states" =
      if (statesMembers children).isEmpty then none
      else some (.object (statesMembers children)) :=
    Fields.get?_present hnodup (hfields (by simp [StateBody.fields]))
  have hread : childrenOfJson? (.object (Fields.present fields)) = some children := by
    rw [childrenOfJson?, childrenOfMembers?_eq, hstates]
    cases children with
    | nil => rfl
    | cons d rest => exact hchildren
  have hbody : (Json.recordFields? StateBody.fieldNames (.object (Fields.present fields))).bind
      (StateBody.ofFields? b.key) = some b := by
    rw [Json.recordFields?_present hnodup, Option.bind_some]
    exact StateBody.ofFields?_present hnodup hfields
  rw [readAs?, hbody, hread]

theorem nodup_fields (b : StateBody) (states : List (String × Json)) :
    ((b.fields states).map Prod.fst).Nodup := (by decide : StateBody.fieldNames.Nodup)

mutual

theorem readAs?_members : ∀ d : StateDef, readAs? d.key (.object d.members) = some d
  | ⟨body, children⟩ => by
    rw [members, membersWith_eq]
    exact readAs?_present (nodup_fields _ _) (List.Subset.refl _)
      (statesOfMembers?_statesMembers children)

theorem statesOfMembers?_statesMembers : ∀ l : List StateDef,
    statesOfMembers? (statesMembers l) = some l
  | [] => rfl
  | d :: rest => by
    rw [statesMembers, statesOfMembers?_cons, readAs?_members d,
      statesOfMembers?_statesMembers rest]
    rfl

end

mutual

/-- A definition in order stays as it is. -/
theorem Ordered.arrange_eq : ∀ {d : StateDef}, d.Ordered → d.arrange = d
  | ⟨body, children⟩, h => by
    rw [arrange, arrangeAll_eq h.2, Keyed.ofList_of_ascending h.1]

theorem arrangeAll_eq : ∀ {l : List StateDef}, OrderedAll l → arrangeAll l = l
  | [], _ => rfl
  | d :: rest, h => by rw [arrangeAll, h.1.arrange_eq, arrangeAll_eq h.2]

end

end StateDef

namespace Definition

theorem ofRoot_root (d : Definition) : ofRoot d.root = d := by
  obtain ⟨root, hordered⟩ := d
  simp only [ofRoot, hordered.arrange_eq]

theorem ofJson?_toJson (d : Definition) : ofJson? d.toJson = some d := by
  obtain ⟨body, children, hroot⟩ : ∃ body children, d.root = ⟨body, children⟩ := by
    cases d.root
    exact ⟨_, _, rfl⟩
  let fields : List (String × Option Json) :=
    ("id", some (.string d.id)) :: body.fields (StateDef.statesMembers children)
  have hnodup : (fields.map Prod.fst).Nodup := (by decide : ("id" :: StateBody.fieldNames).Nodup)
  have hjson : d.toJson = .object (Fields.present fields) := by
    rw [toJson, hroot, StateDef.members, StateDef.membersWith_eq]
    rfl
  have hid : (Fields.present fields).get? "id" = some (.string d.id) :=
    Fields.get?_present hnodup List.mem_cons_self
  have hkey : d.id = body.key := by rw [id, hroot]; rfl
  have hread : StateDef.readAs? d.id (.object (Fields.present fields)) = some d.root := by
    rw [hkey, hroot]
    exact StateDef.readAs?_present hnodup (List.subset_cons_self _ _)
      (StateDef.statesOfMembers?_statesMembers children)
  rw [ofJson?, if_pos d.legible_toJson.isProper, hjson, Json.objectFields?_present hnodup,
    Option.bind_some, Fields.required, hid, Option.bind_some, Json.text?, Option.bind_some, hread,
    Option.map_some, d.ofRoot_root]

/-- **A definition is read back from its text as it was**: equal in everything, so that single items
stay single, lists of one item stay lists, and the text of what is read is the same again. -/
theorem ofText?_toText (d : Definition) (h : d.toJson.nesting ≤ Json.nestingLimit) :
    ofText? d.toText = some d := by
  rw [ofText?, toText, d.legible_toJson.ofText?_pretty h]
  exact d.ofJson?_toJson

end Definition

/-- A bell that rings at a pull, which swings it for a while, and takes no notice of a push. It dies
down in two stages. -/
def bell : Definition := .ofRoot
  ⟨⟨"bell", some "still", .one "hang", .many ["rest"],
      .ofList [("pull", .one ((TransitionDef.goto "swinging").action "ring")), ("push", .many [])],
      .empty, .many [], none⟩,
    [⟨{ (default : StateBody) with key := "still", description := some "nobody pulls" }, []⟩,
      ⟨{ (default : StateBody) with
          key := "swinging", initial := some "loud", invoke := .many [⟨"echo", none⟩]
          after := .ofList [("900", .goto "still")] },
        [⟨{ (default : StateBody) with
            key := "loud", after := .ofList [("300", .goto "soft")] }, []⟩,
          ⟨{ (default : StateBody) with key := "soft", entry := .many ["fade"] }, []⟩]⟩]⟩

theorem bell_ofText? : (bell.root.children.flatMap StateDef.children).length = 2 ∧
    Definition.ofText? bell.toText = some bell :=
  ⟨by decide, bell.ofText?_toText (by decide +kernel)⟩

end Statechart
