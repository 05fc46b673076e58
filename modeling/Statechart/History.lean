import Statechart.Event
import Statechart.Json.Reader
import Statechart.Time.Instant

/-!
# Histories

A history holds the most recent transitions, oldest first, up to a limit. A record says which
event was handled, which states below the root were active before and after, and when.
-/

namespace Statechart

/-- One transition that was taken. States are named by their ids, outermost first. -/
structure Record where
  event : String
  source : List String
  destination : List String
  time : Instant
  deriving DecidableEq

/-- The transitions taken, oldest first. -/
structure History where
  limit : Nat
  records : List Record
  deriving DecidableEq

namespace History

/-- How many records are kept if nothing else is said. -/
def defaultLimit : Nat := 100

def withLimit (limit : Nat) : History := ⟨limit, []⟩

/-- Add a record; if the limit is reached the oldest one makes room for it. -/
def record (h : History) (r : Record) : History :=
  if h.limit = 0 then h
  else if h.records.length = h.limit then { h with records := h.records.drop 1 ++ [r] }
  else { h with records := h.records ++ [r] }

/-- The configurations visited, from the one before the oldest record on. -/
def path (h : History) : List (List String) :=
  ((h.records.take 1).map Record.source) ++ h.records.map Record.destination

def last? (h : History) : Option Record := h.records.getLast?

/-- The time between the oldest and the newest record; none if it is negative. -/
def duration? (h : History) : Option Duration :=
  match h.records.head?, h.records.getLast? with
  | some first, some last => last.time.since? first.time
  | _, _ => none

def size (h : History) : Nat := h.records.length

end History

/-! ### Reading and writing -/

namespace Record

def fieldNames : List String := ["event", "from", "to", "timestamp"]

def ofJson? (v : Json) : Option Record :=
  (Json.recordFields? fieldNames v).bind fun fields =>
    (fields.required "event" Json.text?).bind fun event =>
      (fields.required "from" (Json.list? Json.text?)).bind fun source =>
        (fields.required "to" (Json.list? Json.text?)).bind fun destination =>
          ((fields.required "timestamp" Json.text?).bind Instant.ofText?).map fun time =>
            ⟨event, source, destination, time⟩

def toJson (r : Record) : Json :=
  .object [("event", .string r.event), ("from", .array (r.source.map .string)),
    ("to", .array (r.destination.map .string)), ("timestamp", .string r.time.text)]

end Record

namespace History

def fieldNames : List String := ["limit", "records"]

def ofJson? (v : Json) : Option History :=
  (Json.recordFields? fieldNames v).bind fun fields =>
    (fields.required "limit" Json.natural?).bind fun limit =>
      (fields.required "records" (Json.list? Record.ofJson?)).map fun records =>
        ⟨limit, records⟩

def toJson (h : History) : Json :=
  .object [("limit", .number (.whole h.limit)), ("records", .array (h.records.map Record.toJson))]

def ofText? (text : String) : Option History := (Json.ofText? text).bind ofJson?

/-- The text of a history, without blanks. -/
def toText (h : History) : String := h.toJson.compact

end History

end Statechart
