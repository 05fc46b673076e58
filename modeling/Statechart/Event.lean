import Statechart.Json.Fields
import Statechart.Json.Writer
import Statechart.Time.Duration

/-!
# Events

An event has a name and may carry a payload. Events come from the host, from invoked services, and
from the interpreter itself: when a machine starts, when it stops, and when a delay has elapsed.
-/

namespace Statechart

/-- An event with its payload, if it carries one. -/
structure Event where
  name : String
  payload : Option Json

namespace Event

instance : Inhabited Event := ⟨⟨"", none⟩⟩

instance : BEq Event := ⟨fun a b => a.name == b.name && a.payload == b.payload⟩

/-- An event without payload. -/
def named (name : String) : Event := ⟨name, none⟩

/-- Attach a payload in place of any other. -/
def withPayload (e : Event) (payload : Json) : Event := { e with payload := some payload }

/-- The event that entry actions see when the machine starts. -/
def init : Event := named "@init"

/-- The event that exit actions see when the machine stops. -/
def stop : Event := named "@stop"

/-- The name of the event for a delay of the given milliseconds in the state with the given id. -/
def delayName (millis : Nat) (state : String) : String :=
  "after(" ++ toString millis ++ ")#" ++ state

/-- The event for an elapsed delay. -/
def after (delay : Duration) (state : String) : Event := named (delayName delay.toMillis state)

/-! ### Reading and writing -/

def fieldNames : List String := ["name", "payload"]

def ofJson? (v : Json) : Option Event :=
  (Json.recordFields? fieldNames v).bind fun fields =>
    (fields.required "name" Json.text?).bind fun name =>
      (fields.nullable "payload" Json.payload?).map fun payload => ⟨name, payload⟩

def toJson (e : Event) : Json :=
  .object (("name", .string e.name) :: Json.optionalMember "payload" (fun v => v) e.payload)

/-- The text of an event, without blanks. -/
def toText (e : Event) : String := e.toJson.compact

end Event

end Statechart
