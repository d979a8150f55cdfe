import StateSlice.Host
import StateSlice.Proofs.Addressing

/-!
# Chunks in one host

A host dispatches every action to all of its chunks. What a chunk makes actions for lies at its own
location or below, and as long as chunks are located at their names no location of one is within a
location of another, whatever the names are. So an action that one chunk makes, and a batch of such
actions, asks nothing of the leaves of another. Here the children of a branch may share a name; so a
leaf is told by where it is contained, not by a path to it.
-/
namespace StateSlice

open Json (Value)

namespace Tree

variable {α β : Type}

/-- A tree contains itself and what its children contain. -/
inductive Contains : Tree α → Tree α → Prop
  /-- The whole tree. -/
  | whole {tree : Tree α} : Contains tree tree
  /-- What a child contains. -/
  | child {location : String} {boundary : Bool} {children : List (String × Tree α)}
      {child : String × Tree α} {below : Tree α} :
      child ∈ children → Contains child.2 below →
      Contains (.branch location boundary children) below

/-- What a path leads to is contained in the tree. -/
theorem contains_of_follow? {tree below : Tree α} {path : List String}
    (found : tree.follow? path = some below) : tree.Contains below := by
  induction path generalizing tree with
  | nil =>
    obtain rfl := Option.some.inj found
    exact .whole
  | cons name path hypothesis =>
    cases tree with
    | leaf payload => simp [follow?_leaf_eq_some_iff] at found
    | branch location boundary children =>
      obtain ⟨entry, search, further⟩ := follow?_branch_eq_some_iff.1 found
      exact .child (List.mem_of_find?_eq_some search) (hypothesis further)

/-- What a mapped tree contains is mapped from what the tree contains. -/
theorem exists_of_contains_map {f : α → β} {tree : Tree α} {below : Tree β}
    (contains : (tree.map f).Contains below) :
    ∃ source, tree.Contains source ∧ source.map f = below := by
  induction tree using Tree.induct with
  | leaf payload =>
    cases contains with
    | whole => exact ⟨_, .whole, rfl⟩
  | branch location boundary children hypothesis =>
    rw [map, mapChildren_eq_map] at contains
    cases contains with
    | whole => exact ⟨_, .whole, by rw [map, mapChildren_eq_map]⟩
    | child member inside =>
      obtain ⟨child, among, rfl⟩ := List.mem_map.1 member
      obtain ⟨source, contained, same⟩ := hypothesis child among inside
      exact ⟨source, .child among contained, same⟩

/-- A step of the whole comes from every state to the same as another step if every leaf that the
tree contains does so. -/
theorem reduce_congr_of_contains {tree : Tree α} {f : α → Reducer} {action instead : Action}
    (agree : ∀ payload, tree.Contains (.leaf payload) → ∀ state,
      (f payload).reduce state action = (f payload).reduce state instead)
    (state : Option Value) :
    (tree.map f).combined.reduce state action = (tree.map f).combined.reduce state instead := by
  induction tree using Tree.induct generalizing state with
  | leaf payload => exact agree payload .whole state
  | branch location boundary children hypothesis =>
    rw [combined_map_branch]
    apply Reducer.reduce_combine_congr
    intro name reducer writes
    have member := Reducer.mem_of_writer? writes
    obtain ⟨child, among, same⟩ := List.mem_map.1 member
    obtain ⟨rfl, rfl⟩ := Prod.mk.inj same
    exact hypothesis child among (fun payload inside => agree payload (.child among inside)) _

/-- The location of a compiled tree. -/
def place : Tree CompiledLeaf → String
  | .leaf compiled => compiled.leaf.location
  | .branch location _ _ => location

end Tree

namespace LeafActions

/-- An action for a location that a leaf is not within does not concern the leaf. -/
theorem isAddressedBy_of_outside {actions : LeafActions} {location : String}
    (outside : Location.isWithin actions.location location = false) (operation : Operation) :
    actions.isAddressedBy (operation.actionType location) = false := by
  by_cases reset : operation = .resetAll
  · rw [reset, isAddressedBy, operationFor?_resetAll, isResetBy_resetAll, outside]
    rfl
  · have foreign : location ≠ actions.location := by
      rintro rfl
      rw [Location.isWithin_self] at outside
      exact Bool.noConfusion outside
    exact isAddressedBy_eq_false reset foreign

end LeafActions

namespace Structure

variable {scope : Scope} {content : Structure} {mount : Mount}

/-- A leaf is located where it is mounted. -/
theorem location_of_compileLeaf {compiled : CompiledLeaf}
    (made : content.compileLeaf scope mount = .ok compiled) :
    compiled.leaf.location = mount.location := by
  obtain ⟨container, -, rfl⟩ := eq_of_compileLeaf made
  rfl

/-- All that a compiled tree contains is located at its mount or below. -/
theorem exists_place_eq_descend {boundary : Bool} {tree below : Tree CompiledLeaf}
    (ends : content.compileAs scope boundary mount = some (.ok tree))
    (contains : tree.Contains below) :
    ∃ path, below.place = Location.descend mount.location path := by
  revert contains
  refine compiled_induct (motive := fun _ mount tree => tree.Contains below →
    ∃ path, below.place = Location.descend mount.location path) ?_ ?_ ends
  · intro content mount compiled made contains
    cases contains with
    | whole => exact ⟨[], location_of_compileLeaf made⟩
  · intro boundary content mount children wildcard explicit compiled node each contains
    cases contains with
    | whole => exact ⟨[], rfl⟩
    | child member inside =>
      obtain ⟨source, -, -, located⟩ := exists_mem_of_forall₂ each.flip member
      obtain ⟨path, same⟩ := located inside
      exact ⟨source.1 :: path, same⟩

end Structure

namespace Chunk

/-- A chunk is built at the location of its name. -/
def IsAtName (chunk : Chunk) : Prop :=
  ∃ scope name content options, options.location? = none ∧
    build scope name content options = some (.ok chunk)

/-- The creators of a chunk: those of its leaves and those that reset its boundaries. -/
inductive HasCreator (chunk : Chunk) : Creator → Prop
  /-- A creator of a leaf. -/
  | leaf {actions : LeafActions} {creator : Creator} :
      chunk.actions.Contains (.leaf actions) → creator ∈ actions.creators →
      HasCreator chunk creator
  /-- The creator of the reset of a branch. -/
  | branch {below : Tree LeafActions} {creator : Creator} :
      chunk.actions.Contains below → below.resetAll? = some creator → HasCreator chunk creator
  /-- The creator of the reset of the whole chunk. -/
  | whole {creator : Creator} : chunk.resetAll = some creator → HasCreator chunk creator

/-- The actions that the creators of a chunk make, and batches of such actions, one in another to
any depth. -/
inductive Makes (chunk : Chunk) : Action → Prop
  /-- An action of the type of a creator. -/
  | single {creator : Creator} {action : Action} :
      chunk.HasCreator creator → action.type = creator.actionType → Makes chunk action
  /-- A batch of actions that the chunk makes. -/
  | batch {label : String} {actions : List Action} :
      (∀ action ∈ actions, Makes chunk action) → Makes chunk (.batch label actions)

variable {chunk : Chunk} {creator : Creator}

/-- The creator of an operation of the leaf at a path is a creator of the chunk. -/
theorem hasCreator_of_creator? {path : List String} {operation : Operation}
    (made : chunk.creator? path operation = some creator) : chunk.HasCreator creator := by
  obtain ⟨actions, found, own⟩ := Option.bind_eq_some_iff.1 made
  have contains := Tree.contains_of_follow? (Tree.follow?_of_leaf? found)
  exact .leaf contains (List.mem_of_find?_eq_some own)

/-- The creator of the reset of the boundary at a path is a creator of the chunk. -/
theorem hasCreator_of_resets {boundary : List String} (resets : chunk.Resets boundary creator) :
    chunk.HasCreator creator := by
  rcases resets with found | ⟨-, found⟩
  · obtain ⟨below, leads, makes⟩ := Option.bind_eq_some_iff.1 found
    exact .branch (Tree.contains_of_follow? leads) makes
  · exact .whole found

namespace IsAtName

/-- A chunk at its name is located there. -/
theorem location_eq (atName : chunk.IsAtName) : chunk.location = Location.escape chunk.name := by
  obtain ⟨scope, name, content, options, unset, built⟩ := atName
  obtain ⟨-, -, located, rfl⟩ := build_cases built
  rw [located, mount, unset, Option.getD_none]

/-- All that a chunk at its name contains is located at the name or below. -/
theorem exists_place_eq_descend {below : Tree CompiledLeaf} (atName : chunk.IsAtName)
    (contains : chunk.tree.Contains below) :
    ∃ path, below.place = Location.descend (Location.escape chunk.name) path := by
  have own := atName.location_eq
  obtain ⟨scope, name, content, options, -, built⟩ := atName
  obtain ⟨-, ends, located, -⟩ := build_cases built
  rw [← own, located]
  rcases compile_cases ends with ⟨compiled, -⟩ | ⟨-, leaf, made, tree⟩
  · exact Structure.exists_place_eq_descend compiled contains
  · rw [tree] at contains
    cases contains with
    | whole => exact ⟨[], Structure.location_of_compileLeaf made⟩

/-- A creator of a chunk at its name makes actions for the location of the name or one below. -/
theorem exists_eq_of_hasCreator (atName : chunk.IsAtName) (has : chunk.HasCreator creator) :
    ∃ operation path,
      creator = .of operation (Location.descend (Location.escape chunk.name) path) := by
  cases has with
  | leaf contains member =>
    obtain ⟨source, inside, same⟩ := Tree.exists_of_contains_map contains
    obtain ⟨path, located⟩ := atName.exists_place_eq_descend inside
    obtain ⟨operation, -, rfl⟩ := List.mem_map.1 member
    cases source with
    | leaf compiled =>
      obtain rfl := Tree.leaf.inj same
      exact ⟨operation, path, congrArg (Creator.of operation) located⟩
    | branch location boundary children => simp [Tree.map] at same
  | branch contains reset =>
    obtain ⟨source, inside, rfl⟩ := Tree.exists_of_contains_map contains
    obtain ⟨path, located⟩ := atName.exists_place_eq_descend inside
    cases source with
    | leaf compiled => simp [Tree.map, Tree.resetAll?] at reset
    | branch location boundary children =>
      cases boundary with
      | false => simp [Tree.map, Tree.resetAll?] at reset
      | true =>
        obtain rfl := Option.some.inj reset
        exact ⟨.resetAll, path, congrArg (Creator.of .resetAll) located⟩
  | whole reset =>
    have own := atName.location_eq
    obtain ⟨scope, name, content, options, -, built⟩ := atName
    have made := (of_build built).2.2 creator reset
    exact ⟨.resetAll, [], by rw [made, own]; rfl⟩

/-- As chunks are at their names, a leaf of one is within no location of another. -/
theorem isWithin_eq_false {other : Chunk} {compiled : CompiledLeaf} (atName : other.IsAtName)
    (contains : other.tree.Contains (.leaf compiled)) (apart : chunk.name ≠ other.name)
    (path : List String) :
    Location.isWithin compiled.leaf.location
      (Location.descend (Location.escape chunk.name) path) = false := by
  obtain ⟨below, located⟩ := atName.exists_place_eq_descend contains
  have place : compiled.leaf.location = Location.descend (Location.escape other.name) below :=
    located
  rw [place, Bool.eq_false_iff]
  intro within
  have goesOn := (Location.isWithin_descend_escape_iff _ _ _ _).1 within
  exact apart (List.cons_prefix_cons.1 goesOn).1

/-- A leaf that is within no location of a chunk does nothing at an action that the chunk makes. -/
theorem apply_eq_self {leaf : Leaf} (atName : chunk.IsAtName)
    (outside : ∀ path, Location.isWithin leaf.location
      (Location.descend (Location.escape chunk.name) path) = false)
    {action : Action} (makes : chunk.Makes action) (state : Value) :
    leaf.apply state action = state := by
  induction makes generalizing state with
  | @single creator action has asks =>
    obtain ⟨operation, path, rfl⟩ := atName.exists_eq_of_hasCreator has
    have noBatch : action.isBatch = false := by
      rw [Action.isBatch, asks, beq_eq_false_iff_ne]
      exact operation.actionType_ne_batchType _
    have unaddressed : leaf.actions.isAddressedBy action.type = false := by
      rw [asks]
      exact LeafActions.isAddressedBy_of_outside (outside path) operation
    exact leaf.apply_eq_self state noBatch unaddressed
  | @batch label actions each hypothesis =>
    have still : actions.foldl leaf.apply state = actions.foldl (fun state _ => state) state :=
      List.foldl_ext _ _ state fun state action member => hypothesis action member state
    rw [Leaf.apply_batch, still, List.foldl_fixed]

/-- An action that a chunk makes does to another chunk what the action that asks for nothing
does. -/
theorem reduce_eq_reduce_init {other : Chunk} (atName : chunk.IsAtName)
    (otherAtName : other.IsAtName) (apart : chunk.name ≠ other.name) {action : Action}
    (makes : chunk.Makes action) (state : Option Value) :
    other.reducer.reduce state action = other.reducer.reduce state .init := by
  apply Tree.reduce_congr_of_contains
  intro compiled contains state
  have outside := otherAtName.isWithin_eq_false contains apart
  have still : compiled.leaf.reducer.reduce state action = state.getD compiled.leaf.initial :=
    atName.apply_eq_self outside makes _
  rw [still]
  exact (compiled.leaf.apply_init _).symm

end IsAtName

/-- A chunk goes through batches action by action. -/
theorem reducer_sequential (chunk : Chunk) : chunk.reducer.Sequential :=
  chunk.tree.combined_map_induct (fun compiled => compiled.leaf.reducer_sequential)
    fun _ => Reducer.combine_sequential

/-- The chunk of a number under a name. -/
def numberChunk (name : String) : Chunk :=
  ⟨name, Location.escape name, .leaf (scalarLeaf .number (mount name {})), none⟩

/-- A number is built under every name, and is located there. -/
theorem isAtName_numberChunk (name : String) : (numberChunk name).IsAtName := by
  have clean : (Structure.scalar .number).audit noLabels = [] := by
    simp [Structure.audit_eq_nil_iff, Structure.survey, Structure.scalar, Node.parts,
      Visit.issueKinds, Node.explicit?, Node.isBoundary]
  have root : Structure.ready ((Structure.scalar .number).inner noLabels) = .scalar .number := rfl
  refine ⟨noLabels, name, .scalar .number, {}, rfl, ?_⟩
  simp only [build, clean, compile, root, hasBoundary_scalar]
  rfl

end Chunk

namespace Host

/-- With different names, what a host holds at the name of a chunk after an action is what the chunk
comes to from what was held there before. -/
theorem get?_reduce {chunks : List Chunk} {chunk : Chunk}
    (distinct : (chunks.map (·.name)).Nodup) (member : chunk ∈ chunks) (state : Option Value)
    (action : Action) :
    Value.get? chunk.name ((reducer chunks).reduce state action) =
      some (chunk.reducer.reduce (state.bind (Value.get? chunk.name)) action) := by
  have names : ((chunks.map fun chunk => (chunk.name, chunk.reducer)).map (·.1)).Nodup := by
    rwa [List.map_map]
  have among : (chunk.name, chunk.reducer) ∈
      chunks.map fun chunk => (chunk.name, chunk.reducer) := List.mem_map_of_mem member
  rw [reducer, Reducer.get?_reduce_combine, Reducer.writer?_of_mem names among, Option.map_some]

/-- In a host of chunks with different names, each at the location of its name, an action that one
chunk makes does to the slice of every other chunk what the action that asks for nothing does; and
that is nothing if the slice is one that the chunk has come to. -/
theorem reduce_of_makes {chunks : List Chunk} (atNames : ∀ chunk ∈ chunks, chunk.IsAtName)
    (distinct : (chunks.map (·.name)).Nodup) {maker other : Chunk} (makerIn : maker ∈ chunks)
    (otherIn : other ∈ chunks) (different : maker ≠ other) {action : Action}
    (makes : maker.Makes action) (state : Option Value) :
    let slice (action : Action) := Value.get? other.name ((reducer chunks).reduce state action)
    slice action = slice .init ∧ (slice .init).isSome = true ∧
      ∀ before earlier, state.bind (Value.get? other.name) =
          some (other.reducer.reduce before earlier) →
        slice action = state.bind (Value.get? other.name) := by
  intro slice
  have apart : maker.name ≠ other.name := fun same =>
    different (List.inj_on_of_nodup_map distinct makerIn otherIn same)
  have written (action : Action) : slice action =
      some (other.reducer.reduce (state.bind (Value.get? other.name)) action) :=
    get?_reduce distinct otherIn state action
  have still := (atNames maker makerIn).reduce_eq_reduce_init (atNames other otherIn) apart makes
    (state.bind (Value.get? other.name))
  refine ⟨by rw [written, written, still], by rw [written]; rfl, ?_⟩
  intro before earlier held
  rw [written, still, held, other.reducer_sequential.settled]

/-- In a host with a chunk under the name `app` and a number under the name `app.a`, the number is
kept by a batch in which `app` is reset and the number named `b` under its boundary `a` is
replaced. -/
theorem reduce_of_makes_twoNames :
    let chunks := [Chunk.twoNamesChunk, Chunk.numberChunk "app.a"]
    let reset : Creator := .of .resetAll "app"
    let replace : Creator := .of .replace "app.a.b"
    let batch : Action := .batch "outer"
      [.batch "inner" [reset.create .null], replace.create (.number (.int 1))]
    let state : Value := .object [("app.a", .number (.int 7))]
    (∀ chunk ∈ chunks, chunk.IsAtName) ∧ (chunks.map (·.name)).Nodup ∧
      Chunk.twoNamesChunk.Makes batch ∧
      Value.get? "app.a" (dispatch chunks state batch) = some (.number (.int 7)) := by
  intro chunks reset replace batch state
  have atNames : ∀ chunk ∈ chunks, chunk.IsAtName := by
    intro chunk member
    rcases List.mem_pair.1 member with rfl | rfl
    · exact ⟨_, _, _, _, rfl, Chunk.build_twoNames⟩
    · exact Chunk.isAtName_numberChunk "app.a"
  have distinct : (chunks.map (·.name)).Nodup := by decide
  have different : Chunk.twoNamesChunk ≠ Chunk.numberChunk "app.a" := fun same =>
    absurd (congrArg Chunk.name same) (by decide)
  have whole : Chunk.twoNamesChunk.Resets [] reset := .inl rfl
  have resets : Chunk.twoNamesChunk.Makes (reset.create .null) :=
    .single (Chunk.hasCreator_of_resets whole) rfl
  have part : Chunk.twoNamesChunk.creator? ["a", "b"] .replace = some replace := rfl
  have replaces : Chunk.twoNamesChunk.Makes (replace.create (.number (.int 1))) :=
    .single (Chunk.hasCreator_of_creator? part) rfl
  have makes : Chunk.twoNamesChunk.Makes batch := by
    apply Chunk.Makes.batch
    intro action member
    rcases List.mem_pair.1 member with rfl | rfl
    · apply Chunk.Makes.batch
      intro action member
      rwa [List.mem_singleton.1 member]
    · exact replaces
  let own : Action := .simple "app\\.a/REPLACE" (.number (.int 7))
  have held : (some state).bind (Value.get? "app.a") =
      some ((Chunk.numberChunk "app.a").reducer.reduce none own) := by decide
  obtain ⟨-, -, kept⟩ := reduce_of_makes atNames distinct List.mem_cons_self
    (List.mem_cons_of_mem _ List.mem_cons_self) different makes (some state)
  exact ⟨atNames, distinct, makes, kept none own held⟩

end Host

end StateSlice
