import StateSlice.Location
import StateSlice.Reducer

/-!
# Leaves

A leaf owns one value as a whole. Its actions replace the value, merge entries into an object,
remove an item of an array, or reset the value to its default; the reset of an enclosing boundary
reaches it by the location in the action's type. What is put into a container is sanitized first,
and a scalar that its validator rejects is not put at all. Of a batch a leaf sees the entries
addressed to it and the batches inside, in order.
-/
namespace StateSlice

open Json (Value Entries)

/-- What a leaf holds, as far as its operations depend on it. -/
inductive LeafKind
  | value
  | shape
  | array
deriving DecidableEq

/-- The actions of a leaf at a location. -/
structure LeafActions where
  /-- Where the leaf is mounted. -/
  location : String
  /-- What the leaf holds. -/
  kind : LeafKind
deriving DecidableEq

namespace LeafActions

/-- The operations of a leaf, in order: every leaf replaces and resets, a shape updates and an array
removes items. -/
def operations (actions : LeafActions) : List Operation :=
  match actions.kind with
  | .value => [.replace, .reset]
  | .shape => [.replace, .update, .reset]
  | .array => [.replace, .reset, .removeAtIndex]

/-- The creators of a leaf, in the order of its operations. -/
def creators (actions : LeafActions) : List Creator :=
  actions.operations.map fun operation => .of operation actions.location

/-- The creator of an operation, if the leaf has it. -/
def creator? (actions : LeafActions) (operation : Operation) : Option Creator :=
  actions.creators.find? (·.operation == operation)

/-- Whether the leaf has an operation. -/
def supports (actions : LeafActions) (operation : Operation) : Bool :=
  actions.operations.contains operation

/-- The operation that a type of action asks of the leaf. -/
def operationFor? (actions : LeafActions) (type : String) : Option Operation :=
  (actions.creators.find? (·.actionType == type)).map (·.operation)

/-- Whether a type of action resets a boundary that encloses the leaf. -/
def isResetBy (actions : LeafActions) (type : String) : Bool :=
  match Operation.resetAll.locationOf? type with
  | some boundary => Location.isWithin actions.location boundary
  | none => false

/-- Whether a type of action concerns the leaf. -/
def isAddressedBy (actions : LeafActions) (type : String) : Bool :=
  (actions.operationFor? type).isSome || actions.isResetBy type

end LeafActions

/-- The creator of the reset of a branch, if it is a boundary. -/
def Tree.resetAll? {α : Type} : Tree α → Option Creator
  | .branch location true _ => some (.of .resetAll location)
  | _ => none

/-- What a leaf does with a value that is put into it. -/
inductive Container
  | value (validator : Validator)
  | shape
  | array

/-- The kind of leaf for a container. -/
def Container.kind : Container → LeafKind
  | .value _ => .value
  | .shape => .shape
  | .array => .array

/-- A value that is owned as a whole. -/
structure Leaf where
  /-- What labels in the structure stand for. -/
  scope : Scope
  /-- The structure of the value. -/
  content : Structure
  /-- What is done with a value that is put into the leaf. -/
  container : Container
  /-- The value to start from and to reset to. -/
  initial : Value
  /-- Where the leaf is mounted. -/
  location : String

namespace Leaf

/-- The leaf of a structure at a location. -/
def of (scope : Scope) (content : Structure) (location : String) : Except UnknownType Leaf :=
  let node := content.inner scope
  let leaf (container : Container) : Leaf :=
    ⟨scope, content, container, node.defaultValue scope, location⟩
  match node with
  | .shape _ _ _ => .ok (leaf .shape)
  | .arrayOf _ _ => .ok (leaf .array)
  | node => (node.validator scope).map fun validator => leaf (.value validator)

/-- The actions of the leaf. -/
def actions (leaf : Leaf) : LeafActions := ⟨leaf.location, leaf.container.kind⟩

/-- The state after a payload replaces it. -/
def replace (leaf : Leaf) (state payload : Value) : Value :=
  match leaf.container with
  | .value validator => if validator.accepts payload then payload else state
  | .shape => leaf.content.sanitizeShape leaf.scope payload
  | .array => .array (leaf.content.sanitizeArray leaf.scope payload)

/-- The state after the entries of a payload are merged into it; a state that is no object counts as
empty. -/
def update (leaf : Leaf) (state payload : Value) : Value :=
  .object (Entries.merge (state.entries?.getD [])
    ((leaf.content.sanitizeShape leaf.scope payload).entries?.getD []))

/-- The state after the item at an index is removed; without such an item it stays. -/
def removeAt (state : Value) (index : Option UInt64) : Value :=
  match state, index with
  | .array items, some index => .array (items.eraseIdx index.toNat)
  | state, _ => state

/-- The state after an action that is no batch. -/
def applySimple (leaf : Leaf) (state : Value) (type : String) (payload : Value)
    (index : Option UInt64) : Value :=
  match leaf.actions.operationFor? type with
  | some .replace => leaf.replace state payload
  | some .update => leaf.update state payload
  | some .reset => leaf.initial
  | some .removeAtIndex => removeAt state index
  | some .resetAll => state
  | none => if leaf.actions.isResetBy type then leaf.initial else state

mutual
/-- The state after an action. -/
def apply (leaf : Leaf) (state : Value) : Action → Value
  | ⟨type, payload, index, _, actions⟩ =>
    if type == Action.batchType then leaf.applyAll state actions
    else leaf.applySimple state type payload index

/-- The state after the actions of a batch. -/
def applyAll (leaf : Leaf) (state : Value) : List Action → Value
  | [] => state
  | action :: actions =>
    if action.isBatch || leaf.actions.isAddressedBy action.type then
      leaf.applyAll (leaf.apply state action) actions
    else leaf.applyAll state actions
end

/-- The events of an action that is no batch. -/
def traceSimple (leaf : Leaf) (type : String) (payload : Value) : List Event :=
  match leaf.actions.operationFor? type, leaf.container with
  | some .replace, .value validator =>
    if validator.accepts payload then [] else [.replaceRejected leaf.location payload]
  | some .replace, .array => (leaf.content.arrayRejections leaf.scope payload).map (·.event)
  | some .replace, .shape | some .update, _ =>
    (leaf.content.shapeRejections leaf.scope payload).map (·.event)
  | _, _ => []

mutual
/-- The events of an action. -/
def trace (leaf : Leaf) : Action → List Event
  | ⟨type, payload, _, _, actions⟩ =>
    if type == Action.batchType then leaf.traceAll actions else leaf.traceSimple type payload

/-- The events of the actions of a batch. -/
def traceAll (leaf : Leaf) : List Action → List Event
  | [] => []
  | action :: actions =>
    if action.isBatch || leaf.actions.isAddressedBy action.type then
      leaf.trace action ++ leaf.traceAll actions
    else leaf.traceAll actions
end

/-- The reducer of the leaf: an absent state is its initial value. -/
def reducer (leaf : Leaf) : Reducer where
  reduce state action := leaf.apply (state.getD leaf.initial) action
  trace := leaf.trace

end Leaf

end StateSlice
