import StateSlice.Action.Basic
import StateSlice.Event
import StateSlice.Tree

/-!
# Reducers

A reducer takes a state and an action to the next state. An absent state is answered with a state to
start from. The events of a step depend on the action alone. Reducers under names combine into one
over the object of their states, in which of two with one name the later writes.
-/
namespace StateSlice

open Json (Value Entries)

/-- A function of state and action, with the events that an action makes. -/
structure Reducer where
  /-- The next state. -/
  reduce : Option Value → Action → Value
  /-- The events of the step. -/
  trace : Action → List Event

namespace Reducer

/-- The state before any action that asks for something. -/
def initialState (reducer : Reducer) : Value := reducer.reduce none .init

/-- The states of reducers under names after an action, put into the entries so far. -/
def combineInto (state : Option Value) (action : Action) (entries : Entries)
    (children : List (String × Reducer)) : Entries :=
  children.foldl (fun entries (name, child) =>
    Entries.insert name (child.reduce (state.bind (Value.get? name)) action) entries) entries

/-- One reducer over the object of the states of reducers under names. -/
def combine (children : List (String × Reducer)) : Reducer where
  reduce state action := .object (combineInto state action [] children)
  trace action := children.flatMap fun (_, child) => child.trace action

end Reducer

mutual
/-- The reducer of a whole tree. -/
def Tree.combined : Tree Reducer → Reducer
  | .leaf reducer => reducer
  | .branch _ _ children => .combine (Tree.combinedChildren children)

/-- The reducers of whole subtrees. -/
def Tree.combinedChildren : List (String × Tree Reducer) → List (String × Reducer)
  | [] => []
  | (name, child) :: children => (name, child.combined) :: combinedChildren children
end

/-- Children are combined one by one. -/
theorem Tree.combinedChildren_eq_map (children : List (String × Tree Reducer)) :
    combinedChildren children = children.map fun child => (child.1, child.2.combined) := by
  induction children with
  | nil => simp [combinedChildren]
  | cons child children hypothesis => simp [combinedChildren, hypothesis]

end StateSlice
