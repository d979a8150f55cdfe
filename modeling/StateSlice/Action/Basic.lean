import StateSlice.Json.Value

/-!
# Actions

An action asks for a change of state. Its type is a text; the type of an action for one position is
the location of the position, a slash and the suffix of the operation. A batch carries other
actions, to be applied in their order. Creators build the actions of one operation at one location.
-/
namespace StateSlice

open Json (Value)

/-- The operations at a location. -/
inductive Operation
  | replace
  | update
  | reset
  | removeAtIndex
  | resetAll
deriving DecidableEq

namespace Operation

/-- All operations. -/
def all : List Operation := [.replace, .update, .reset, .removeAtIndex, .resetAll]

/-- The end of the types of actions of an operation. -/
def suffix : Operation → String
  | .replace => "REPLACE"
  | .update => "UPDATE"
  | .reset => "RESET"
  | .removeAtIndex => "REMOVE_AT_INDEX"
  | .resetAll => "RESET_ALL"

/-- The type of the actions of an operation at a location. -/
def actionType (operation : Operation) (location : String) : String :=
  location ++ "/" ++ operation.suffix

/-- The location in a type of action, if the type is one of the operation. -/
def locationOf? (operation : Operation) (type : String) : Option String :=
  (('/' :: operation.suffix.toList).isSuffixOf? type.toList).map String.ofList

end Operation

/-- An action. -/
structure Action where
  /-- What the action asks for, and where. -/
  type : String
  /-- The value that the operation uses. -/
  payload : Value
  /-- The place of the item to remove. -/
  index : Option UInt64
  /-- The label of a batch. -/
  name : Option String
  /-- The actions of a batch, in order. -/
  actions : List Action

namespace Action

/-- The type of batches. -/
def batchType : String := "@@storechunk/BATCH"

/-- The type of the action that asks for nothing, dispatched to obtain an initial state. -/
def initType : String := "@@storechunk/INIT"

/-- An action with a type and a payload only. -/
def simple (type : String) (payload : Value) : Action := ⟨type, payload, none, none, []⟩

/-- The action that asks for nothing. -/
def init : Action := simple initType .null

/-- A batch of actions under a label. -/
def batch (name : String) (actions : List Action) : Action :=
  ⟨batchType, .null, none, some name, actions⟩

/-- Whether the action is a batch. -/
def isBatch (action : Action) : Bool := action.type == batchType

end Action

/-- A builder of the actions of one type. -/
structure Creator where
  /-- The operation that the actions ask for. -/
  operation : Operation
  /-- The type of the actions. -/
  actionType : String
deriving DecidableEq

namespace Creator

/-- The creator of an operation at a location. -/
def of (operation : Operation) (location : String) : Creator :=
  ⟨operation, operation.actionType location⟩

/-- An action with a payload. -/
def create (creator : Creator) (payload : Value) : Action := .simple creator.actionType payload

/-- An action with an index. -/
def createAt (creator : Creator) (index : UInt64) : Action :=
  { creator.create .null with index := some index }

end Creator

end StateSlice
