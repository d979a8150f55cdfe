import Mathlib.Data.List.FinRange
import Mathlib.Data.List.Sort
import StateSlice.Proofs.Isolation

/-!
# Orders of actions

The order in which actions are dispatched matters leaf by leaf. What a leaf comes to depends on the
actions that act on it and on their order alone, so two orders of the same actions come to the same
slice if they agree about any two actions that act on one leaf. The reset of a boundary acts on all
leaves below the boundary, and so its order with every action on one of these leaves counts.
-/
namespace StateSlice

open Json (Value)

/-- Two lists have the same items, and items that are related are in the same order in both: every
place of the first list goes with a place of the second, and two places of related items go with
places in the same order. -/
def Reorders {α : Type} (R : α → α → Prop) (items others : List α) : Prop :=
  ∃ place : Fin items.length ≃ Fin others.length, (∀ i, others.get (place i) = items.get i) ∧
    ∀ i j, i < j → R (items.get i) (items.get j) → place i < place j

namespace Reorders

variable {α : Type} {R : α → α → Prop} {items others : List α}

/-- A reordered list has no items of its own. -/
theorem mem_of_mem (reorders : Reorders R items others) {item : α} (member : item ∈ others) :
    item ∈ items := by
  obtain ⟨place, same, -⟩ := reorders
  obtain ⟨k, rfl⟩ := List.get_of_mem member
  rw [← place.apply_symm_apply k, same]
  exact List.get_mem _ _

/-- A list is reordered to no items only if it has none. -/
theorem eq_nil_iff (reorders : Reorders R items others) : others = [] ↔ items = [] := by
  constructor
  · rintro rfl
    obtain ⟨place, -⟩ := reorders
    exact List.eq_nil_iff_length_eq_zero.2 (Nat.eq_zero_of_not_pos fun some =>
      (place ⟨0, some⟩).elim0)
  · rintro rfl
    exact List.eq_nil_iff_forall_not_mem.2 fun item member =>
      List.not_mem_nil (reorders.mem_of_mem member)

/-- The first two items can change places if they are not related. -/
theorem exchange {first second : α} (apart : ¬ R first second) (rest : List α) :
    Reorders R (first :: second :: rest) (second :: first :: rest) := by
  let place : Equiv.Perm (Fin (rest.length + 2)) := Equiv.swap 0 1
  have atFirst : place 0 = 1 := Equiv.swap_apply_left 0 1
  have atSecond : place 1 = 0 := Equiv.swap_apply_right 0 1
  have later (k : Nat) (bound : k + 2 < rest.length + 2) :
      place ⟨k + 2, bound⟩ = ⟨k + 2, bound⟩ :=
    Equiv.swap_apply_of_ne_of_ne (Fin.ne_of_val_ne (by simp)) (Fin.ne_of_val_ne (by simp))
  refine ⟨place, fun i => ?_, fun i j less related => ?_⟩
  · match i with
    | 0 => exact congrArg _ atFirst
    | 1 => exact congrArg _ atSecond
    | ⟨k + 2, bound⟩ => exact congrArg _ (later k bound)
  · -- Only the first two places are taken out of their order, and their items are not related.
    match i, j with
    | 0, 1 => exact absurd related apart
    | 0, ⟨k + 2, bound⟩ =>
      rw [atFirst, later k bound]
      exact Fin.mk_lt_mk.2 (by simp)
    | 1, ⟨k + 2, bound⟩ =>
      rw [atSecond, later k bound]
      exact Fin.mk_lt_mk.2 (by simp)
    | ⟨k + 2, bound⟩, ⟨l + 2, alsoBound⟩ => rwa [later k bound, later l alsoBound]

/-- The places of the items of a list that pass a test, in order. -/
def placesOf (test : α → Bool) (items : List α) : List (Fin items.length) :=
  (List.finRange items.length).filter fun i => test (items.get i)

/-- An item passes the test exactly if its place is among them. -/
theorem mem_placesOf_iff {test : α → Bool} {i : Fin items.length} :
    i ∈ placesOf test items ↔ test (items.get i) = true := by
  simp [placesOf]

/-- The places are in ascending order. -/
theorem pairwise_placesOf (test : α → Bool) (items : List α) :
    (placesOf test items).Pairwise (· < ·) :=
  (List.pairwise_lt_finRange _).filter _

/-- The items that pass a test are those at their places. -/
theorem filter_eq_map_placesOf (test : α → Bool) (items : List α) :
    items.filter test = (placesOf test items).map items.get := by
  conv_lhs => rw [← List.map_get_finRange items, List.filter_map]
  rfl

/-- If any two items that pass a test are related, a reordered list has the items that pass in the
same order. -/
theorem filter_eq (reorders : Reorders R items others) (test : α → Bool)
    (related : ∀ item other, test item = true → test other = true → R item other) :
    items.filter test = others.filter test := by
  obtain ⟨place, same, ordered⟩ := reorders
  have ascending : ((placesOf test items).map place).Pairwise (· < ·) := by
    rw [List.pairwise_map]
    refine (pairwise_placesOf test items).imp_of_mem fun {i j} first second less => ?_
    exact ordered i j less (related _ _ (mem_placesOf_iff.1 first) (mem_placesOf_iff.1 second))
  have members (k : Fin others.length) :
      k ∈ (placesOf test items).map place ↔ k ∈ placesOf test others := by
    rw [mem_placesOf_iff, List.mem_map]
    constructor
    · rintro ⟨i, passes, rfl⟩
      rw [same]
      exact mem_placesOf_iff.1 passes
    · intro passes
      rw [← place.apply_symm_apply k, same] at passes
      exact ⟨place.symm k, mem_placesOf_iff.2 passes, place.apply_symm_apply k⟩
  have places : (placesOf test items).map place = placesOf test others :=
    ascending.eq_of_mem_iff (pairwise_placesOf test others) members
  rw [filter_eq_map_placesOf, filter_eq_map_placesOf, ← places, List.map_map]
  exact List.map_congr_left fun i _ => (same i).symm

end Reorders

/-- A location encloses itself and what goes on from its text at a point. -/
def Location.Encloses (boundary location : String) : Prop :=
  ∃ rest, boundary.toList ++ rest = location.toList ∧ Location.StartsAtPoint rest

namespace LeafActions

/-- A type of action acts on a leaf if it is the type of an action of the leaf or the reset of a
location that encloses the leaf. -/
def ActedOnBy (actions : LeafActions) (type : String) : Prop :=
  (∃ creator ∈ actions.creators, creator.actionType = type) ∨
    ∃ boundary, Location.Encloses boundary actions.location ∧
      Operation.resetAll.actionType boundary = type

/-- A type of action acts on a leaf exactly if the leaf finds that it concerns it. -/
theorem actedOnBy_iff {actions : LeafActions} {type : String} :
    actions.ActedOnBy type ↔ actions.isAddressedBy type = true := by
  have own : (actions.operationFor? type).isSome = true ↔
      ∃ creator ∈ actions.creators, creator.actionType = type := by
    rw [operationFor?, Option.isSome_map, List.find?_isSome]
    simp only [beq_iff_eq]
  have reset : actions.isResetBy type = true ↔ ∃ boundary,
      Location.Encloses boundary actions.location ∧
        Operation.resetAll.actionType boundary = type := by
    simp only [Location.Encloses, ← Location.isWithin_iff]
    rw [isResetBy]
    cases found : Operation.resetAll.locationOf? type with
    | none =>
      have unread (boundary : String) : Operation.resetAll.actionType boundary ≠ type := by
        intro same
        rw [Operation.locationOf?_eq_some_iff.2 same] at found
        cases found
      simp [unread]
    | some boundary =>
      obtain rfl := Operation.locationOf?_eq_some_iff.1 found
      simp [Operation.actionType_inj]
  rw [ActedOnBy, isAddressedBy, Bool.or_eq_true, own, reset]

end LeafActions

namespace Leaf

variable {leaf : Leaf} {actions others : List Action}

/-- Of actions that are no batches, those that do not act on a leaf can be left out for it. -/
theorem foldl_apply_filter (simple : ∀ action ∈ actions, action.isBatch = false) (state : Value) :
    (actions.filter fun action => leaf.actions.isAddressedBy action.type).foldl leaf.apply state =
      actions.foldl leaf.apply state := by
  induction actions generalizing state with
  | nil => rfl
  | cons action actions hypothesis =>
    have later := hypothesis fun other member => simple other (List.mem_cons_of_mem _ member)
    cases acts : leaf.actions.isAddressedBy action.type with
    | true => rw [List.filter_cons, if_pos acts, List.foldl_cons, List.foldl_cons, later]
    | false =>
      have passed := leaf.apply_eq_self state (simple action List.mem_cons_self) acts
      rw [List.filter_cons, if_neg (by simp [acts]), List.foldl_cons, passed, later]

/-- A leaf comes to the same by actions in another order, if the order of those that act on it is
the same. -/
theorem foldl_apply_eq_of_reorders {R : Action → Action → Prop}
    (simple : ∀ action ∈ actions, action.isBatch = false) (reorders : Reorders R actions others)
    (related : ∀ action other, leaf.actions.ActedOnBy action.type →
      leaf.actions.ActedOnBy other.type → R action other) (state : Value) :
    actions.foldl leaf.apply state = others.foldl leaf.apply state := by
  have alsoSimple : ∀ action ∈ others, action.isBatch = false := fun action member =>
    simple action (reorders.mem_of_mem member)
  have same := reorders.filter_eq (fun action => leaf.actions.isAddressedBy action.type)
    fun action other acts alsoActs => related action other (LeafActions.actedOnBy_iff.2 acts)
      (LeafActions.actedOnBy_iff.2 alsoActs)
  rw [← foldl_apply_filter simple, ← foldl_apply_filter alsoSimple, same]

end Leaf

/-- A batch that is not empty comes to what its actions come to one after the other. -/
theorem Reducer.Sequential.run_eq_batch {reducer : Reducer} (sequential : reducer.Sequential)
    {actions : List Action} (nonempty : actions ≠ []) (label : String) (state : Option Value) :
    reducer.run state actions = some (reducer.reduce state (.batch label actions)) := by
  obtain ⟨front, last, rfl⟩ := (List.eq_nil_or_concat actions).resolve_left nonempty
  rw [List.concat_eq_append, sequential.batch, run_concat]

namespace Chunk

/-- Two actions act on one leaf of a chunk. -/
def ActOnOneLeaf (chunk : Chunk) (action other : Action) : Prop :=
  ∃ path actions, chunk.actions.leaf? path = some actions ∧ actions.ActedOnBy action.type ∧
    actions.ActedOnBy other.type

/-- Two orders of the same actions come to the same slice, from whatever state, if any two actions
that act on one leaf are in the same order in both: one after the other, as one batch, and the one
in the one way and the other in the other. -/
theorem reduce_eq_of_reorders {scope : Scope} {name : String} {content : Structure}
    {options : ChunkOptions} {chunk : Chunk} {actions others : List Action}
    (built : build scope name content options = some (.ok chunk))
    (distinct : content.DistinctNames scope) (simple : ∀ action ∈ actions, action.isBatch = false)
    (reorders : Reorders chunk.ActOnOneLeaf actions others) (state : Option Value)
    (label another : String) :
    chunk.reducer.run state actions = chunk.reducer.run state others ∧
    chunk.reducer.reduce state (.batch label actions) =
      chunk.reducer.reduce state (.batch another others) ∧
    (actions ≠ [] → chunk.reducer.run state actions =
      some (chunk.reducer.reduce state (.batch another others))) := by
  have batches : chunk.reducer.reduce state (.batch label actions) =
      chunk.reducer.reduce state (.batch another others) := by
    refine Tree.reduce_congr (distinct_of_build built distinct) fun path compiled found => ?_
    have listed : chunk.actions.leaf? path = some compiled.leaf.actions := by
      rw [Chunk.actions, Tree.leaf?_map, found, Option.map_some]
    simp only [Leaf.reducer, Leaf.apply_batch]
    exact Leaf.foldl_apply_eq_of_reorders simple reorders
      (fun action other acts also => ⟨path, _, listed, acts, also⟩) _
  have sequential := chunk.reducer_sequential
  by_cases empty : actions = []
  · have none : others = [] := reorders.eq_nil_iff.2 empty
    exact ⟨by rw [empty, none], batches, fun nonempty => absurd empty nonempty⟩
  · have nonempty : others ≠ [] := fun none => empty (reorders.eq_nil_iff.1 none)
    have whole : chunk.reducer.run state actions =
        some (chunk.reducer.reduce state (.batch another others)) := by
      rw [sequential.run_eq_batch empty label state, batches]
    exact ⟨whole.trans (sequential.run_eq_batch nonempty another state).symm, batches,
      fun _ => whole⟩

/-- The replacement of the number named `b` under `a` and that of the string named `a.b` act on no
leaf both. -/
theorem not_actOnOneLeaf_twoNames {number string : Action} (asks : number.type = "app.a.b/REPLACE")
    (alsoAsks : string.type = "app.a\\.b/REPLACE") :
    ¬ twoNamesChunk.ActOnOneLeaf number string := by
  rintro ⟨path, actions, found, first, second⟩
  rw [LeafActions.actedOnBy_iff, asks] at first
  rw [LeafActions.actedOnBy_iff, alsoAsks] at second
  obtain ⟨name, rest, entry, -, search, further⟩ := Tree.leaf?_branch_eq_some_iff.1 found
  rcases List.mem_pair.1 (List.mem_of_find?_eq_some search) with rfl | rfl
  · obtain ⟨name, rest, entry, -, search, further⟩ := Tree.leaf?_branch_eq_some_iff.1 further
    obtain rfl := List.mem_singleton.1 (List.mem_of_find?_eq_some search)
    obtain ⟨-, rfl⟩ := Tree.leaf?_leaf_eq_some_iff.1 further
    exact absurd second (by decide)
  · obtain ⟨-, rfl⟩ := Tree.leaf?_leaf_eq_some_iff.1 further
    exact absurd first (by decide)

/-- Replacing the number named `b` under `a` and replacing the string named `a.b` can change places
before the boundary `a` is reset, whatever the state is. -/
theorem reduce_eq_of_reorders_twoNames :
    let number : Action := .simple "app.a.b/REPLACE" (.number (.int 2))
    let string : Action := .simple "app.a\\.b/REPLACE" (.string "new")
    let reset : Action := .simple "app.a/RESET_ALL" .null
    let actions := [number, string, reset]
    let others := [string, number, reset]
    build noLabels "app" twoNames {} = some (.ok twoNamesChunk) ∧
      twoNames.DistinctNames noLabels ∧ (∀ action ∈ actions, action.isBatch = false) ∧
      Reorders twoNamesChunk.ActOnOneLeaf actions others ∧
      ∀ state, twoNamesChunk.reducer.run state actions =
        some (twoNamesChunk.reducer.reduce state (.batch "both" others)) := by
  intro number string reset actions others
  have simple : ∀ action ∈ actions, action.isBatch = false := by decide
  have apart : ¬ twoNamesChunk.ActOnOneLeaf number string := not_actOnOneLeaf_twoNames rfl rfl
  have reorders : Reorders twoNamesChunk.ActOnOneLeaf actions others := .exchange apart [reset]
  refine ⟨build_twoNames, distinctNames_twoNames, simple, reorders, fun state => ?_⟩
  exact (reduce_eq_of_reorders build_twoNames distinctNames_twoNames simple reorders state "one"
    "both").2.2 (by simp [actions])

end Chunk

end StateSlice
