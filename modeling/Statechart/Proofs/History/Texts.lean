import Statechart.Proofs.History.Limits
import Statechart.Proofs.Json.Documents
import Statechart.Proofs.Json.Payloads
import Statechart.Proofs.Json.Records
import Statechart.Proofs.Time.Instants

/-!
# Events and histories as texts

An event is read back from its text, except that a payload that is an explicit null is read as none
(`Event.ofText?_toText_of_ne`, `Event.ofText?_toText_of_null`). A history is read back as it was,
whatever its limit and however many records it has (`History.ofText?_toText_of_isWritable`).
-/

namespace Statechart

open Json (Fields)

/-! ### Events -/

namespace Event

/-- The event that a text spells. -/
def ofText? (text : String) : Option Event := (Json.ofText? text).bind ofJson?

/-- The payload is a value, not nested too deep to be read inside of the event. -/
def IsWritable (e : Event) : Prop := ∀ v ∈ e.payload, v.IsValue ∧ v.nesting < Json.nestingLimit

/-- The fields of an event, with the values that are written. -/
def fields (e : Event) : List (String × Option Json) :=
  [("name", some (.string e.name)), ("payload", e.payload)]

variable {e : Event}

theorem toJson_eq (e : Event) : e.toJson = .object (Fields.present e.fields) := by
  rw [toJson, Json.optionalMember_eq, Option.map_id']
  rfl

theorem nodup_fields (e : Event) : (e.fields.map Prod.fst).Nodup := (by decide : fieldNames.Nodup)

theorem get?_payload (e : Event) : (Fields.present e.fields).get? "payload" = e.payload :=
  Fields.get?_present e.nodup_fields (by simp [fields])

/-- What is read of an event is its name and what is read of its payload. -/
theorem ofJson?_toJson {payload : Option Json}
    (h : (Fields.present e.fields).nullable "payload" Json.payload? = some payload) :
    ofJson? e.toJson = some ⟨e.name, payload⟩ := by
  have hname : (Fields.present e.fields).get? "name" = some (.string e.name) :=
    Fields.get?_present e.nodup_fields (by simp [fields])
  rw [e.toJson_eq, ofJson?, Json.recordFields?_present e.nodup_fields]
  simp only [Fields.required, hname, h, Json.text?, Option.bind_some, Option.map_some]

theorem legible_toJson (he : e.IsWritable) : e.toJson.Legible := by
  obtain ⟨name, payload⟩ := e
  cases payload with
  | none => exact ⟨trivial, trivial⟩
  | some v => exact ⟨trivial, (he v rfl).1.legible, trivial⟩

theorem nesting_toJson (he : e.IsWritable) : e.toJson.nesting ≤ Json.nestingLimit := by
  obtain ⟨name, payload⟩ := e
  cases payload with
  | none => exact Nat.le_add_left 1 126
  | some v =>
    have hlt : v.nesting < Json.nestingLimit := (he v rfl).2
    simpa [toJson, Json.optionalMember, Json.nesting, Json.membersNesting, Nat.succ_le_iff]
      using hlt

theorem ofText?_eq (he : e.IsWritable) : ofText? e.toText = ofJson? e.toJson := by
  rw [ofText?, toText, (legible_toJson he).ofText?_compact (nesting_toJson he)]
  rfl

/-- **An event is read back from its text**, unless its payload is an explicit null. -/
theorem ofText?_toText_of_ne (he : e.IsWritable) (hne : e.payload ≠ some .null) :
    ofText? e.toText = some e := by
  rw [ofText?_eq he]
  refine ofJson?_toJson ?_
  rw [Fields.nullable, get?_payload]
  cases hpayload : e.payload with
  | none => rfl
  | some v =>
    have hread := (he v hpayload).1.payload?_eq
    cases v with
    | null => exact absurd hpayload hne
    | _ => simp only [hread, Option.map_some]

/-- An explicit null is taken for no payload. -/
theorem ofText?_toText_of_null (h : e.payload = some .null) :
    ofText? e.toText = some ⟨e.name, none⟩ := by
  have he : e.IsWritable := by
    intro v hv
    obtain rfl : Json.null = v := Option.some.inj (h ▸ hv)
    exact ⟨trivial, by decide⟩
  rw [ofText?_eq he]
  refine ofJson?_toJson ?_
  rw [Fields.nullable, get?_payload, h]

theorem beq_refl (e : Event) : (e == e) = true := by
  have hpayload : (e.payload == e.payload) = true := by
    cases e.payload with
    | none => rfl
    | some v => exact v.same_refl
  exact Bool.and_eq_true_iff.mpr ⟨beq_self_eq_true e.name, hpayload⟩

end Event

/-! ### Histories -/

namespace Record

/-- The time of the record is one that there is, in a year of four digits. -/
def IsWritable (r : Record) : Prop :=
  r.time.IsValid ∧ 0 ≤ r.time.date.year ∧ r.time.date.year ≤ 9999

instance (r : Record) : Decidable r.IsWritable := inferInstanceAs (Decidable (_ ∧ _))

/-- The fields of a record, with the values that are written. -/
def fields (r : Record) : List (String × Option Json) :=
  [("event", some (.string r.event)), ("from", some (.array (r.source.map .string))),
    ("to", some (.array (r.destination.map .string))), ("timestamp", some (.string r.time.text))]

theorem toJson_eq (r : Record) : r.toJson = .object (Fields.present r.fields) := rfl

theorem ofJson?_toJson {r : Record} (hr : r.IsWritable) : ofJson? r.toJson = some r := by
  have hnodup : (r.fields.map Prod.fst).Nodup := (by decide : fieldNames.Nodup)
  have hevent : (Fields.present r.fields).get? "event" = some (.string r.event) :=
    Fields.get?_present hnodup (by simp [fields])
  have hsource : (Fields.present r.fields).get? "from" = some (.array (r.source.map .string)) :=
    Fields.get?_present hnodup (by simp [fields])
  have hdestination : (Fields.present r.fields).get? "to" =
      some (.array (r.destination.map .string)) :=
    Fields.get?_present hnodup (by simp [fields])
  have htime : (Fields.present r.fields).get? "timestamp" = some (.string r.time.text) :=
    Fields.get?_present hnodup (by simp [fields])
  rw [r.toJson_eq, ofJson?, Json.recordFields?_present hnodup]
  simp only [Fields.required, hevent, hsource, hdestination, htime, Json.list?_map_string, Json.text?,
    Option.bind_some, Instant.ofText?_text hr.1 hr.2, Option.map_some]

theorem legible_toJson (r : Record) : r.toJson.Legible := by
  have htexts (texts : List String) : (Json.array (texts.map .string)).Legible :=
    Json.legibleItems_iff.mpr <| List.forall_mem_map.mpr fun _ _ => trivial
  exact ⟨trivial, htexts r.source, htexts r.destination, trivial, trivial⟩

theorem nesting_toJson (r : Record) : r.toJson.nesting ≤ 2 := by
  have htexts (texts : List String) : Json.itemsNesting (texts.map .string) = 0 := by
    induction texts with
    | nil => rfl
    | cons text rest ih => simp [Json.itemsNesting, Json.nesting, ih]
  simp [toJson, Json.nesting, Json.membersNesting, htexts]

end Record

namespace History

/-- The limit is a word, and every record can be written. -/
def IsWritable (h : History) : Prop :=
  h.limit ≤ Number.greatestWord ∧ ∀ r ∈ h.records, r.IsWritable

instance (h : History) : Decidable h.IsWritable := inferInstanceAs (Decidable (_ ∧ _))

/-- The fields of a history, with the values that are written. -/
def fields (h : History) : List (String × Option Json) :=
  [("limit", some (.number (.whole h.limit))),
    ("records", some (.array (h.records.map Record.toJson)))]

variable {h : History}

theorem toJson_eq (h : History) : h.toJson = .object (Fields.present h.fields) := rfl

theorem ofJson?_toJson (hh : h.IsWritable) : ofJson? h.toJson = some h := by
  have hnodup : (h.fields.map Prod.fst).Nodup := (by decide : fieldNames.Nodup)
  have hlimit : (Fields.present h.fields).get? "limit" = some (.number (.whole h.limit)) :=
    Fields.get?_present hnodup (by simp [fields])
  have hrecords : (Fields.present h.fields).get? "records" =
      some (.array (h.records.map Record.toJson)) :=
    Fields.get?_present hnodup (by simp [fields])
  have hnatural : Json.natural? (.number (.whole h.limit)) = some h.limit :=
    if_pos ⟨Int.natCast_nonneg _, Int.ofNat_le.mpr hh.1⟩
  have hlist : Json.list? Record.ofJson? (.array (h.records.map Record.toJson)) = some h.records :=
    Json.readAll_map h.records fun r hr => Record.ofJson?_toJson (hh.2 r hr)
  rw [h.toJson_eq, ofJson?, Json.recordFields?_present hnodup]
  simp only [Fields.required, hlimit, hrecords, hnatural, hlist, Option.bind_some, Option.map_some]

theorem legible_toJson (hh : h.IsWritable) : h.toJson.Legible := by
  have hlimit : (Number.whole h.limit).Readable :=
    ⟨Int.le_trans (by decide) (Int.natCast_nonneg h.limit), Int.ofNat_le.mpr hh.1⟩
  have hrecords : (Json.array (h.records.map Record.toJson)).Legible :=
    Json.legibleItems_iff.mpr <| List.forall_mem_map.mpr fun r _ => r.legible_toJson
  exact ⟨Json.legible_of_readable hlimit, hrecords, trivial⟩

theorem nesting_toJson (h : History) : h.toJson.nesting ≤ Json.nestingLimit := by
  have hrecords (records : List Record) :
      Json.itemsNesting (records.map Record.toJson) ≤ 2 := by
    induction records with
    | nil => exact Nat.zero_le 2
    | cons r rest ih => exact Nat.max_le.mpr ⟨r.nesting_toJson, ih⟩
  have hlimit : Json.nestingLimit = 127 := rfl
  have hle := hrecords h.records
  simp only [toJson, Json.nesting, Json.membersNesting]
  omega

/-- **A history is read back from its text.** -/
theorem ofText?_toText_of_isWritable (hh : h.IsWritable) : ofText? h.toText = some h := by
  rw [ofText?, toText, (legible_toJson hh).ofText?_compact h.nesting_toJson]
  exact ofJson?_toJson hh

end History

/-! ### Both -/

/-- **Events and histories survive being written and read.** An event is read back equal, except
that an explicit null for a payload is lost, and nothing else with it. A history is read back with
its limit and all of its records, be they more than the limit allows, so that it goes on like the
one that was written. -/
theorem survive_text :
    (∀ e : Event, e.IsWritable → ∃ e', Event.ofText? e.toText = some e' ∧
      ((e' == e) = true ↔ e.payload ≠ some .null) ∧
      (e.payload = some .null → e'.name = e.name ∧ e'.payload = none)) ∧
    (∀ h : History, h.IsWritable → ∃ h', History.ofText? h.toText = some h' ∧
      h'.limit = h.limit ∧ h'.records = h.records ∧
      ∀ rs, (h'.recordAll rs).path = (h.recordAll rs).path ∧
        (h'.recordAll rs).duration? = (h.recordAll rs).duration? ∧
        (h'.recordAll rs).last? = (h.recordAll rs).last?) := by
  constructor
  · intro e he
    by_cases hnull : e.payload = some .null
    case pos =>
      refine ⟨_, Event.ofText?_toText_of_null hnull, ⟨fun hsame => ?_, fun hne => ?_⟩,
        fun _ => ⟨rfl, rfl⟩⟩
      · have hpayload : (none == e.payload) = true := (Bool.and_eq_true_iff.mp hsame).2
        rw [hnull] at hpayload
        exact nomatch hpayload
      · exact absurd hnull hne
    case neg =>
      exact ⟨e, Event.ofText?_toText_of_ne he hnull, ⟨fun _ => hnull, fun _ => e.beq_refl⟩,
        fun h => absurd h hnull⟩
  · intro h hh
    exact ⟨h, History.ofText?_toText_of_isWritable hh, rfl, rfl, fun _ => ⟨rfl, rfl, rfl⟩⟩

/-- An event with a null inside of its payload. -/
def seek : Event := ⟨"seek", some (.object
  [("by", .array [.null, .number (.whole (-3))]),
    ("rate", .number (.double ⟨false, 6755399441055744, -52⟩))])⟩

/-- Two records where one is allowed, the second one in a leap second. -/
def newYear : History := ⟨1,
  [⟨"dim", ["lamp.on"], ["lamp.on", "lamp.on.dimmed"], ⟨1483228799, 999999999⟩⟩,
    ⟨"off", ["lamp.on", "lamp.on.dimmed"], ["lamp.off"], ⟨1483228799, 1500000000⟩⟩]⟩

theorem seek_newYear_survive :
    seek.IsWritable ∧ (seek.withPayload .null).IsWritable ∧ newYear.IsWritable ∧
      (∃ e', Event.ofText? seek.toText = some e' ∧ (e' == seek) = true) ∧
      (∃ e', Event.ofText? (seek.withPayload .null).toText = some e' ∧
        e'.name = "seek" ∧ e'.payload = none) ∧
      ∃ h', History.ofText? newYear.toText = some h' ∧ h'.records = newYear.records ∧
        ∀ rs, (h'.recordAll rs).duration? = (newYear.recordAll rs).duration? := by
  have hseek : seek.IsWritable := by
    intro v hv
    cases hv
    have hascending : "by" < "rate" := by decide
    have hrate : (Number.double ⟨false, 6755399441055744, -52⟩).Readable := by decide +kernel
    have hby : (Number.whole (-3)).Readable := by decide
    exact ⟨⟨List.pairwise_pair.mpr hascending, ⟨trivial, hby, trivial⟩, hrate, trivial⟩, by decide⟩
  have hnull : (seek.withPayload .null).IsWritable := by
    intro v hv
    cases hv
    exact ⟨trivial, by decide⟩
  have hnewYear : newYear.IsWritable := by decide +kernel
  obtain ⟨e', he', hsame, -⟩ := survive_text.1 seek hseek
  obtain ⟨n', hn', -, hlost⟩ := survive_text.1 (seek.withPayload .null) hnull
  obtain ⟨h', hh', -, hrecords, hon⟩ := survive_text.2 newYear hnewYear
  exact ⟨hseek, hnull, hnewYear, ⟨e', he', hsame.mpr nofun⟩, ⟨n', hn', hlost rfl⟩,
    h', hh', hrecords, fun rs => (hon rs).2.1⟩

end Statechart
