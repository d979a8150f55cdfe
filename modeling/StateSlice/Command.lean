import StateSlice.Action.Wire
import StateSlice.Leaf

/-!
# Commands

A command names an action by the position it is for, in place of its type. A tree of actions turns
it into the action, or refuses it: there may be nothing at the path, or a branch where a leaf is
needed, or no such operation. A batch of commands is refused for the first of them that is. A
command is performed by reducing a state with its action.
-/
namespace StateSlice

open Json (Value)

/-- A request for an action. -/
inductive Command
  /-- The action in a wire form. -/
  | wire (form : Value)
  /-- The action that asks for nothing. -/
  | init
  /-- Replace the value of a leaf. -/
  | replace (path : List String) (payload : Value)
  /-- Merge entries into the value of a leaf. -/
  | update (path : List String) (payload : Value)
  /-- Reset a leaf. -/
  | reset (path : List String)
  /-- Remove the item at an index from the value of a leaf. -/
  | remove (path : List String) (index : UInt64)
  /-- Reset a boundary. -/
  | resetAll (path : List String) (payload : Value)
  /-- Reset the whole chunk. -/
  | resetChunk (payload : Value)
  /-- Several actions as one. -/
  | batch (name : String) (commands : List Command)

/-- Why a command yields no action. -/
inductive Refusal
  /-- Nothing is at the path. -/
  | noNode
  /-- A branch is at the path. -/
  | notLeaf
  /-- The position has no such operation. -/
  | unsupported
  /-- The wire form is none of an action. -/
  | badAction
deriving DecidableEq

/-- What performing a command comes to. -/
structure Outcome where
  /-- The action that the command asks for. -/
  action : Action
  /-- The next state. -/
  state : Value
  /-- The events of the step. -/
  events : List Event

/-- The creators that commands choose from. -/
structure Actions where
  /-- The actions of the leaves. -/
  tree : Tree LeafActions
  /-- The reset of the whole. -/
  resetAll : Option Creator

namespace Actions

/-- The creator of an operation of the leaf at a path. -/
def creator (actions : Actions) (path : List String) (operation : Operation) :
    Except Refusal Creator :=
  match actions.tree.follow? path with
  | none => .error .noNode
  | some (.branch _ _ _) => .error .notLeaf
  | some (.leaf leaf) =>
    match leaf.creator? operation with
    | some creator => .ok creator
    | none => .error .unsupported

/-- The creator of the reset of the boundary at a path. -/
def resetAllAt (actions : Actions) (path : List String) : Except Refusal Creator :=
  match actions.tree.follow? path with
  | none => .error .noNode
  | some tree =>
    match tree.resetAll? with
    | some creator => .ok creator
    | none => .error .unsupported

mutual
/-- The action that a command asks for. -/
def action (actions : Actions) : Command → Except Refusal Action
  | .wire form =>
    match Action.ofValue? form with
    | some action => .ok action
    | none => .error .badAction
  | .init => .ok .init
  | .replace path payload => return (← actions.creator path .replace).create payload
  | .update path payload => return (← actions.creator path .update).create payload
  | .reset path => return (← actions.creator path .reset).create .null
  | .remove path index => return (← actions.creator path .removeAtIndex).createAt index
  | .resetAll path payload => return (← actions.resetAllAt path).create payload
  | .resetChunk payload =>
    match actions.resetAll with
    | some creator => .ok (creator.create payload)
    | none => .error .unsupported
  | .batch name commands => return .batch name (← actions.actionList commands)

/-- The actions that commands ask for, in order. -/
def actionList (actions : Actions) : List Command → Except Refusal (List Action)
  | [] => .ok []
  | command :: commands => return (← actions.action command) :: (← actions.actionList commands)
end

/-- Reduce a state with the action that a command asks for. -/
def perform (actions : Actions) (reducer : Reducer) (state : Option Value) (command : Command) :
    Except Refusal Outcome :=
  (actions.action command).map fun action =>
    ⟨action, reducer.reduce state action, reducer.trace action⟩

/-- Reduce the state of the subtree at a path with the action that a command asks for. -/
def performAt (actions : Actions) (reducers : Tree Reducer) (path : List String)
    (state : Option Value) (command : Command) : Except Refusal Outcome :=
  match reducers.follow? path with
  | none => .error .noNode
  | some tree => actions.perform tree.combined state command

end Actions

end StateSlice
