import StateSlice.Proofs.ResetAll

/-!
# Addresses of leaves

The type of an action names one operation of one leaf. Two leaves of a chunk are at different paths,
so they are at different locations, whatever the names on the paths are; and a location and an
operation can be read back from the type that is made of them. So no two operations of a chunk share
a type, and an action that is made for one leaf concerns no other: every other leaf keeps its state.
-/
namespace StateSlice

open Json (Value)

namespace Location

/-- Different paths have different locations. -/
theorem descend_injective (root : String) : Function.Injective (descend root) := by
  intro path other same
  have forward : path <+: other := by
    rw [← isWithin_descend_iff root, ← same]
    exact isWithin_self _
  have back : other <+: path := by
    rw [← isWithin_descend_iff root, same]
    exact isWithin_self _
  exact forward.eq_of_length (Nat.le_antisymm forward.length_le back.length_le)

/-- Locations and types of actions can be read back. Under one root, whatever text it is, two paths
of names have the same location only if they are the same path, and one location is within another
exactly if its path goes on from the other's. A type of action is the type of one operation at one
location: that operation reads the location from it, every other operation reads none. -/
theorem location_laws (root : String) (path other : List String) :
    (descend root path = descend root other ↔ path = other) ∧
    (isWithin (descend root path) (descend root other) = true ↔ other <+: path) ∧
    ∀ (operation instead : Operation) (location type : String),
      instead.locationOf? (operation.actionType location) =
        (if operation = instead then some location else none) ∧
      (operation.locationOf? type = some location ↔ operation.actionType location = type) := by
  refine ⟨(descend_injective root).eq_iff, isWithin_descend_iff root path other, ?_⟩
  intro operation instead location type
  exact ⟨operation.locationOf?_actionType instead location, Operation.locationOf?_eq_some_iff⟩

/-- The suffix `RESET` is the start of the suffix `RESET_ALL`, but the end of a type decides. -/
example : Operation.reset.locationOf? "app.a/RESET_ALL" = none ∧
    Operation.resetAll.locationOf? "app.a/RESET_ALL" = some "app.a" := by decide

end Location

namespace LeafActions

/-- The creator of an operation is there exactly if the leaf has the operation, and makes actions
for the location of the leaf. -/
theorem creator?_eq_some_iff {actions : LeafActions} {operation : Operation} {creator : Creator} :
    actions.creator? operation = some creator ↔
      actions.supports operation = true ∧ creator = .of operation actions.location := by
  have made (found : Operation) : (Creator.of found actions.location).operation = found := rfl
  rw [creator?, creators, supports, List.contains_iff_mem, List.find?_map, Option.map_eq_some_iff]
  constructor
  · rintro ⟨found, search, rfl⟩
    have same : found = operation := by simpa [made] using List.find?_some search
    have member := List.mem_of_find?_eq_some search
    rw [same] at member ⊢
    exact ⟨member, rfl⟩
  · rintro ⟨member, rfl⟩
    refine ⟨operation, ?_, rfl⟩
    have search := List.find?_isSome (p := (· == operation)) |>.2 ⟨operation, member, by simp⟩
    obtain ⟨found, search⟩ := Option.isSome_iff_exists.1 search
    have same : found = operation := by simpa using List.find?_some search
    rw [same] at search
    exact search

/-- An action for another location does not concern a leaf, unless it resets a boundary. -/
theorem isAddressedBy_eq_false {actions : LeafActions} {operation : Operation} {location : String}
    (single : operation ≠ .resetAll) (foreign : location ≠ actions.location) :
    actions.isAddressedBy (operation.actionType location) = false := by
  have unasked : actions.operationFor? (operation.actionType location) = none := by
    rw [Option.eq_none_iff_forall_ne_some]
    intro asked found
    have same := (operationFor?_eq_some_iff.1 found).2
    exact foreign (Operation.actionType_inj.1 same).2.symm
  have unread : Operation.resetAll.locationOf? (operation.actionType location) = none := by
    rw [Operation.locationOf?_actionType, if_neg single]
  rw [isAddressedBy, isResetBy, unasked, unread]
  rfl

end LeafActions

namespace Leaf

/-- A leaf does nothing at an action that is made for another location and resets no boundary. -/
theorem reduce_of_foreign {leaf : Leaf} {action : Action} {operation : Operation}
    {location : String} (single : operation ≠ .resetAll) (foreign : location ≠ leaf.location)
    (asks : action.type = operation.actionType location) (state : Option Value) :
    leaf.reducer.reduce state action = state.getD leaf.initial := by
  have noBatch : action.isBatch = false := by
    rw [Action.isBatch, asks, beq_eq_false_iff_ne]
    exact operation.actionType_ne_batchType location
  have unaddressed : leaf.actions.isAddressedBy action.type = false := by
    rw [asks]
    exact LeafActions.isAddressedBy_eq_false single foreign
  exact leaf.apply_eq_self (state.getD leaf.initial) noBatch unaddressed

end Leaf

namespace Chunk

variable {scope : Scope} {name : String} {content : Structure} {options : ChunkOptions}
  {chunk : Chunk}

/-- The creator of an operation of the leaf at a path. -/
def creator? (chunk : Chunk) (path : List String) (operation : Operation) : Option Creator :=
  (chunk.actions.leaf? path).bind (·.creator? operation)

/-- The creator of an operation at a path makes actions for the location of the path, and none that
resets a boundary. -/
theorem eq_of_creator? {path : List String} {operation : Operation} {creator : Creator}
    (built : build scope name content options = some (.ok chunk))
    (made : chunk.creator? path operation = some creator) :
    creator = .of operation (Location.descend chunk.location path) ∧ operation ≠ .resetAll := by
  obtain ⟨actions, found, own⟩ := Option.bind_eq_some_iff.1 made
  obtain ⟨supported, rfl⟩ := LeafActions.creator?_eq_some_iff.1 own
  rw [Chunk.actions, Tree.leaf?_map] at found
  obtain ⟨compiled, leads, rfl⟩ := Option.map_eq_some_iff.1 found
  have located : compiled.leaf.actions.location = Location.descend chunk.location path :=
    (exists_at?_of_leaf? built leads).1
  refine ⟨by rw [located], ?_⟩
  rintro rfl
  rw [LeafActions.supports, List.contains_iff_mem] at supported
  exact compiled.leaf.actions.resetAll_notMem_operations supported

/-- Every operation that a leaf of a chunk supports has actions of a type of its own, which is not
that of a batch nor that of the action that asks for nothing. An action of such a type leaves every
leaf at another path as it is: the leaf keeps its state, or has the default that the structure
declares for it if it had none. -/
theorem addresses_apart_of_build (built : build scope name content options = some (.ok chunk))
    (distinct : content.DistinctNames scope) :
    (∀ path actions operation, chunk.actions.leaf? path = some actions →
      actions.supports operation = true → ∃ creator, chunk.creator? path operation = some creator) ∧
    (∀ path operation creator, chunk.creator? path operation = some creator →
      creator.actionType ≠ Action.batchType ∧ creator.actionType ≠ Action.initType) ∧
    (∀ path operation creator other instead another,
      chunk.creator? path operation = some creator → chunk.creator? other instead = some another →
      creator.actionType = another.actionType → path = other ∧ operation = instead) ∧
    ∀ path operation creator, chunk.creator? path operation = some creator →
      ∀ action : Action, action.type = creator.actionType → ∀ state other leaf,
        chunk.tree.leaf? other = some leaf → other ≠ path → ∃ position,
          content.at? scope other = some position ∧
          Selector.path other (chunk.reducer.reduce state action) =
            some ((state.bind (Selector.path other)).getD (position.defaultValue scope)) := by
  refine ⟨?_, ?_, ?_, ?_⟩
  · intro path actions operation found supported
    refine ⟨.of operation actions.location, ?_⟩
    rw [creator?, found]
    exact LeafActions.creator?_eq_some_iff.2 ⟨supported, rfl⟩
  · intro path operation creator made
    obtain ⟨rfl, -⟩ := eq_of_creator? built made
    exact ⟨operation.actionType_ne_batchType _, operation.actionType_ne_initType _⟩
  · intro path operation creator other instead another made others same
    obtain ⟨rfl, -⟩ := eq_of_creator? built made
    obtain ⟨rfl, -⟩ := eq_of_creator? built others
    obtain ⟨operations, locations⟩ := Operation.actionType_inj.1 same
    exact ⟨Location.descend_injective chunk.location locations, operations⟩
  · intro path operation creator made action asks state other compiled found apart
    obtain ⟨rfl, single⟩ := eq_of_creator? built made
    obtain ⟨located, position, declared, initial⟩ := exists_at?_of_leaf? built found
    have foreign : Location.descend chunk.location path ≠ compiled.leaf.location := by
      rw [located]
      exact (Location.descend_injective chunk.location).ne apart.symm
    have kept : compiled.leaf.reducer.reduce (state.bind (Selector.path other)) action =
        (state.bind (Selector.path other)).getD compiled.leaf.initial :=
      Leaf.reduce_of_foreign single foreign asks _
    refine ⟨position, declared, ?_⟩
    rw [path_reduce_of_build built distinct found, kept, initial]

/-- The number named `b` under `a` and the string named `a.b` are replaced by actions of different
types, and replacing the number keeps the string. -/
theorem addresses_apart_of_build_twoNames :
    let number : Creator := .of .replace "app.a.b"
    let string : Creator := .of .replace "app.a\\.b"
    let state : Value := .object [("a", .object [("b", .number (.int 1))]), ("a.b", .string "kept")]
    let next := twoNamesChunk.reducer.reduce (some state) (number.create (.number (.int 2)))
    build noLabels "app" twoNames {} = some (.ok twoNamesChunk) ∧
      twoNames.DistinctNames noLabels ∧
      twoNamesChunk.creator? ["a", "b"] .replace = some number ∧
      twoNamesChunk.creator? ["a.b"] .replace = some string ∧
      number.actionType ≠ string.actionType ∧
      Selector.path ["a.b"] next = some (.string "kept") := by
  intro number string state next
  have ofNumber : twoNamesChunk.creator? ["a", "b"] .replace = some number := rfl
  have ofString : twoNamesChunk.creator? ["a.b"] .replace = some string := rfl
  obtain ⟨-, -, apart, isolated⟩ :=
    addresses_apart_of_build build_twoNames distinctNames_twoNames
  have types : number.actionType ≠ string.actionType := by
    intro same
    have paths := (apart _ _ _ _ _ _ ofNumber ofString same).1
    exact absurd paths (by decide)
  obtain ⟨position, -, kept⟩ := isolated _ _ _ ofNumber (number.create (.number (.int 2))) rfl
    (some state) ["a.b"] _ rfl (by decide)
  exact ⟨build_twoNames, distinctNames_twoNames, ofNumber, ofString, types, kept⟩

end Chunk

end StateSlice
