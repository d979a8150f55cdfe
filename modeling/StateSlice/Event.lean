import StateSlice.Json.Text
import StateSlice.Sanitize

/-!
# Events

What happens to values while a program runs is told in events, each a list of fields. Every scalar
that is rejected makes one, and so do the rejection of a payload that would replace a scalar and the
building of a chunk.
-/
namespace StateSlice

open Json (Value)

/-- Something worth telling. -/
inductive Event
  /-- A custom node rejected a value. -/
  | customRejected (message : String) (value : Value)
  /-- A value is not of the expected type. -/
  | wrongType (expected : Tag) (value : Value)
  /-- A scalar kept its state because its validator rejects the payload. -/
  | replaceRejected (location : String) (payload : Value)
  /-- A chunk was built. -/
  | chunkBuilt (chunk location : String) (nested : Bool) (leaves : Nat)

namespace Event

/-- The names and texts of the fields of an event. -/
def fields : Event → List (String × String)
  | .customRejected message value =>
    [("message", "Custom validation rejected value"), ("message", message), ("value", value.text)]
  | .wrongType expected value =>
    [("message", "Dropped value of wrong type"), ("expected", expected.name), ("value", value.text)]
  | .replaceRejected location payload =>
    [("message", "Rejected replace payload, keeping previous state"), ("location", location),
      ("payload", payload.text)]
  | .chunkBuilt chunk location nested leaves =>
    [("message", "Built store chunk"), ("chunk", chunk), ("location", location),
      ("nested", if nested then "true" else "false"), ("leaves", toString leaves)]

end Event

/-- The event of a rejected scalar. -/
def Rejection.event (rejection : Rejection) : Event :=
  match rejection.node with
  | .custom _ message _ => .customRejected message rejection.value
  | node => .wrongType node.tag rejection.value

end StateSlice
