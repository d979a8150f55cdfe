import StateSlice.Proofs.Combination
import StateSlice.Proofs.Locations

/-!
# Batches

A batch does what its actions do, one after the other. A leaf passes over the actions of a batch
that do not concern it, and such an action leaves its state as it is; a combined reducer takes its
state apart and builds it anew at every action, and what is read from it at a name goes through the
same actions as the state of the child alone.
-/
namespace StateSlice

open Json (Value)

namespace Reducer

/-- The state after actions that are dispatched one after the other; without any action it stays as
it is, an absent one included. -/
def run (reducer : Reducer) (state : Option Value) (actions : List Action) : Option Value :=
  actions.foldl (fun state action => some (reducer.reduce state action)) state

/-- The last action acts on what the ones before it come to. -/
theorem run_concat (reducer : Reducer) (state : Option Value) (actions : List Action)
    (last : Action) :
    reducer.run state (actions ++ [last]) =
      some (reducer.reduce (reducer.run state actions) last) := by
  simp [run]

/-- Batches do what their actions do, and the action that asks for nothing changes nothing that the
reducer has come to. -/
structure Sequential (reducer : Reducer) : Prop where
  /-- A batch with a last action does what is before it and then that action. -/
  batch : ∀ label state actions last, reducer.reduce state (.batch label (actions ++ [last])) =
    reducer.reduce (reducer.run state actions) last
  /-- A batch without actions asks for nothing. -/
  empty : ∀ label state, reducer.reduce state (.batch label []) = reducer.reduce state .init
  /-- What the reducer has come to stays as it is. -/
  settled : ∀ state action, reducer.reduce (some (reducer.reduce state action)) .init =
    reducer.reduce state action

end Reducer

namespace Leaf

/-- An action that is no batch and does not concern the leaf leaves its state as it is. -/
theorem apply_eq_self (leaf : Leaf) (state : Value) {action : Action}
    (simple : action.isBatch = false)
    (foreign : leaf.actions.isAddressedBy action.type = false) :
    leaf.apply state action = state := by
  obtain ⟨type, payload, index, name, actions⟩ := action
  simp only [LeafActions.isAddressedBy, Bool.or_eq_false_iff, Option.isSome_eq_false_iff,
    Option.isNone_iff_eq_none] at foreign
  rw [apply, if_neg (by simpa [Action.isBatch] using simple), applySimple, foreign.1]
  simp [foreign.2]

/-- A leaf applies the actions of a batch one by one; it makes no difference that it passes over
those that do not concern it. -/
theorem applyAll_eq_foldl (leaf : Leaf) (state : Value) (actions : List Action) :
    leaf.applyAll state actions = actions.foldl leaf.apply state := by
  induction actions generalizing state with
  | nil => rw [applyAll, List.foldl_nil]
  | cons action actions hypothesis =>
    rw [applyAll, List.foldl_cons]
    split
    · exact hypothesis _
    · next passed =>
      simp only [Bool.or_eq_true, not_or, Bool.not_eq_true] at passed
      rw [leaf.apply_eq_self state passed.1 passed.2]
      exact hypothesis _

/-- A batch is applied by applying its actions. -/
theorem apply_batch (leaf : Leaf) (state : Value) (label : String) (actions : List Action) :
    leaf.apply state (.batch label actions) = actions.foldl leaf.apply state := by
  rw [Action.batch, apply, if_pos (by simp), applyAll_eq_foldl]

/-- The action that asks for nothing leaves the state of a leaf as it is. -/
theorem apply_init (leaf : Leaf) (state : Value) : leaf.apply state .init = state :=
  leaf.apply_eq_self state (by decide) (leaf.actions.isAddressedBy_initType)

/-- What an operation of a leaf does to its state. -/
def perform (leaf : Leaf) (operation : Operation) (state payload : Value)
    (index : Option UInt64) : Value :=
  match operation with
  | .replace => leaf.replace state payload
  | .update => leaf.update state payload
  | .reset => leaf.initial
  | .removeAtIndex => removeAt state index
  | .resetAll => state

/-- An action that is made for a leaf asks for its operation, if the leaf has it. -/
theorem reduce_of_mem_operations {leaf : Leaf} {operation : Operation} {action : Action}
    (has : operation ∈ leaf.actions.operations)
    (asks : action.type = operation.actionType leaf.location) (state : Option Value) :
    leaf.reducer.reduce state action =
      leaf.perform operation (state.getD leaf.initial) action.payload action.index := by
  obtain ⟨type, payload, index, name, actions⟩ := action
  obtain rfl : type = operation.actionType leaf.location := asks
  have single := operation.actionType_ne_batchType leaf.location
  have asked : leaf.actions.operationFor? (operation.actionType leaf.location) = some operation :=
    LeafActions.operationFor?_eq_some_iff.2 ⟨has, rfl⟩
  show leaf.apply (state.getD leaf.initial) _ = _
  rw [apply, if_neg (by simpa using single), applySimple, asked]
  cases operation <;> rfl

/-- Actions that are dispatched to a leaf are applied to its state, or else to its initial value. -/
theorem getD_run (leaf : Leaf) (state : Option Value) (actions : List Action) :
    (leaf.reducer.run state actions).getD leaf.initial =
      actions.foldl leaf.apply (state.getD leaf.initial) := by
  induction actions generalizing state with
  | nil => rfl
  | cons action actions hypothesis => exact hypothesis _

/-- A leaf goes through batches action by action. -/
theorem reducer_sequential (leaf : Leaf) : leaf.reducer.Sequential where
  batch label state actions last := by
    simp only [reducer, apply_batch, List.foldl_append, List.foldl_cons, List.foldl_nil]
    exact congrArg (leaf.apply · last) (leaf.getD_run state actions).symm
  empty label state := by simp only [reducer, apply_batch, apply_init, List.foldl_nil]
  settled state action := leaf.apply_init _

end Leaf

namespace Reducer

/-- What is read at a name after actions on combined reducers: what the child that writes the name
comes to by the same actions. -/
theorem bind_get?_run_combine {children : List (String × Reducer)} {name : String} {child : Reducer}
    (writes : writer? name children = some child) (state : Option Value) (actions : List Action) :
    ((combine children).run state actions).bind (Value.get? name) =
      child.run (state.bind (Value.get? name)) actions := by
  induction actions generalizing state with
  | nil => rfl
  | cons action actions hypothesis =>
    have read := get?_reduce_combine children state action name
    rw [writes, Option.map_some] at read
    calc ((combine children).run state (action :: actions)).bind (Value.get? name)
      _ = child.run ((some ((combine children).reduce state action)).bind (Value.get? name))
            actions := hypothesis _
      _ = child.run (some (child.reduce (state.bind (Value.get? name)) action)) actions := by
        rw [Option.bind_some, read]

/-- Reducers that go through batches action by action do so when they are combined. -/
theorem combine_sequential {children : List (String × Reducer)}
    (sequential : ∀ child ∈ children, child.2.Sequential) : (combine children).Sequential where
  batch label state actions last := by
    refine reduce_combine_congr fun name child writes => ?_
    rw [(sequential _ (mem_of_writer? writes)).batch, bind_get?_run_combine writes]
  empty label state := by
    refine reduce_combine_congr fun name child writes => ?_
    exact (sequential _ (mem_of_writer? writes)).empty label _
  settled state action := by
    refine reduce_combine_congr fun name child writes => ?_
    rw [Option.bind_some, get?_reduce_combine, writes]
    exact (sequential _ (mem_of_writer? writes)).settled _ action

end Reducer

/-- Dispatching a batch to the reducer of any tree of leaves comes to the same state as dispatching
its actions one after the other, whatever the actions and the state. A batch without actions does
what the action that asks for nothing does, and that is nothing on every state that the reducer has
come to. -/
theorem Tree.reduce_batch_eq_run (tree : Tree Leaf) (label : String) (state : Option Value) :
    let reducer := (tree.map Leaf.reducer).combined
    (∀ first rest, some (reducer.reduce state (.batch label (first :: rest))) =
      reducer.run state (first :: rest)) ∧
    reducer.reduce state (.batch label []) = reducer.reduce state .init ∧
    ∀ action, reducer.reduce (some (reducer.reduce state action)) .init =
      reducer.reduce state action := by
  intro reducer
  have sequential : reducer.Sequential :=
    tree.combined_map_induct Leaf.reducer_sequential fun _ => Reducer.combine_sequential
  refine ⟨fun first rest => ?_, sequential.empty label state, sequential.settled state⟩
  obtain ⟨actions, last, split⟩ := (List.eq_nil_or_concat (first :: rest)).resolve_left (by simp)
  rw [split, List.concat_eq_append, sequential.batch, Reducer.run_concat]

end StateSlice
