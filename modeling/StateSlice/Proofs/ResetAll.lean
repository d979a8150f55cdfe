import StateSlice.Proofs.Batches
import StateSlice.Proofs.Positions
import StateSlice.Proofs.Walks

/-!
# Resets of boundaries

The reset of a boundary is a text that every leaf compares with its own location. As the texts of
locations keep the paths apart, whatever the names are, it reaches the leaves below the boundary and
no others, and these it sets to the defaults that are declared for them.
-/
namespace StateSlice

open Json (Value)

namespace Leaf

/-- The reset of a boundary sets a leaf to its initial value if the boundary encloses the location
of the leaf, and leaves it as it is otherwise. -/
theorem reduce_resetAll_at {leaf : Leaf} {boundary : String} {action : Action}
    (asks : action.type = Operation.resetAll.actionType boundary) (state : Option Value) :
    leaf.reducer.reduce state action =
      if Location.isWithin leaf.location boundary then leaf.initial
      else state.getD leaf.initial := by
  obtain ⟨type, payload, index, name, actions⟩ := action
  obtain rfl : type = Operation.resetAll.actionType boundary := asks
  have single := Operation.resetAll.actionType_ne_batchType boundary
  show leaf.apply (state.getD leaf.initial) _ = _
  rw [apply, if_neg (by simpa using single), applySimple, LeafActions.operationFor?_resetAll]
  simp only [LeafActions.isResetBy_resetAll]
  rfl

/-- The reset of a boundary sets a leaf to its initial value if its path leads through the boundary,
and leaves it as it is otherwise. -/
theorem reduce_resetAll {leaf : Leaf} {root : String} {path boundary : List String}
    {action : Action} (located : leaf.location = Location.descend root path)
    (asks : action.type = Operation.resetAll.actionType (Location.descend root boundary))
    (state : Option Value) :
    leaf.reducer.reduce state action =
      if boundary <+: path then leaf.initial else state.getD leaf.initial := by
  simp only [reduce_resetAll_at asks, located, Location.isWithin_descend_iff]

end Leaf

namespace Chunk

variable {scope : Scope} {name : String} {content : Structure} {options : ChunkOptions}
  {chunk : Chunk}

/-- A creator is the one for the reset of the boundary at a path: that of the branch at the path in
the tree of actions, or at the empty path that of the whole chunk. -/
def Resets (chunk : Chunk) (boundary : List String) (creator : Creator) : Prop :=
  (chunk.actions.follow? boundary).bind Tree.resetAll? = some creator ∨
    boundary = [] ∧ chunk.resetAll = some creator

/-- What resets a boundary of a chunk asks for the reset of the location of its path. -/
theorem eq_of_resets {boundary : List String} {creator : Creator}
    (built : build scope name content options = some (.ok chunk))
    (resets : chunk.Resets boundary creator) :
    creator = .of .resetAll (Location.descend chunk.location boundary) := by
  obtain ⟨located, mirrored, reset⟩ := of_build built
  rcases resets with found | ⟨rfl, found⟩
  · rw [actions, Tree.follow?_map] at found
    obtain ⟨below, place, makes⟩ := Option.bind_eq_some_iff.1 found
    obtain ⟨branch, leads, rfl⟩ := Option.map_eq_some_iff.1 place
    obtain ⟨position, -, placed⟩ := mirrored boundary branch leads
    cases branch with
    | leaf leaf => simp [Tree.map, Tree.resetAll?] at makes
    | branch location marked children =>
      cases marked with
      | false => simp [Tree.map, Tree.resetAll?] at makes
      | true =>
        have same : .of .resetAll location = creator := Option.some.inj makes
        rw [← same, placed.1, Mount.location_descend, located]
  · exact reset creator found

/-- The reset of a boundary of a chunk sets the leaves below the boundary to the defaults that the
structure declares for them, and no other leaf: it keeps its state, or has its default if it had
none. The reset of the whole chunk comes to the initial state. -/
theorem reduce_reset_of_build {boundary : List String} {creator : Creator} {action : Action}
    (built : build scope name content options = some (.ok chunk))
    (distinct : content.DistinctNames scope) (resets : chunk.Resets boundary creator)
    (asks : action.type = creator.actionType) (state : Option Value) :
    (∀ path leaf, chunk.tree.leaf? path = some leaf → ∃ position,
      content.at? scope path = some position ∧
      Selector.path path (chunk.reducer.reduce state action) =
        some (if boundary <+: path then position.defaultValue scope
          else (state.bind (Selector.path path)).getD (position.defaultValue scope))) ∧
    (boundary = [] → chunk.reducer.reduce state action = chunk.initialState) := by
  have asksReset : action.type =
      Operation.resetAll.actionType (Location.descend chunk.location boundary) := by
    rw [asks, eq_of_resets built resets]
    rfl
  have apart : chunk.tree.Distinct := (of_build built).2.1.distinct distinct.ready_inner
  constructor
  · intro path compiled found
    obtain ⟨located, position, declared, initial⟩ := exists_at?_of_leaf? built found
    refine ⟨position, declared, ?_⟩
    have step : Selector.path path (chunk.reducer.reduce state action) =
        some (compiled.leaf.reducer.reduce (state.bind (Selector.path path)) action) :=
      Tree.path_reduce apart found state action
    rw [step, Leaf.reduce_resetAll located asksReset, initial]
  · rintro rfl
    refine Tree.reduce_congr apart fun path compiled found => ?_
    obtain ⟨located, -⟩ := exists_at?_of_leaf? built found
    rw [Leaf.reduce_resetAll located asksReset, if_pos List.nil_prefix]
    exact (compiled.leaf.apply_init _).symm

/-- A scope without labels. -/
def noLabels : Scope := fun _ => .endless

/-- A boundary around a number named `b`. -/
def inside : Structure := .boundary (.ready (.shape [("b", .scalar .number)] none none))

/-- The boundary under the name `a`, beside a string under the name `a.b`. -/
def twoNames : Structure := .ready (.shape [("a", inside), ("a.b", .scalar .string)] none none)

/-- The leaf of a scalar at a mount. -/
def scalarLeaf (kind : Kind) (mount : Mount) : CompiledLeaf :=
  ⟨⟨noLabels, .scalar kind, .value (.ofKind kind), kind.tag.zero, mount.location⟩, mount.selector⟩

/-- What the boundary is compiled to. -/
def insideTree (mount : Mount) : Tree CompiledLeaf :=
  .branch mount.location true [("b", .leaf (scalarLeaf .number (mount.child "b")))]

/-- The chunk of the two names. -/
def twoNamesChunk : Chunk :=
  let root := mount "app" {}
  ⟨"app", "app", .branch "app" true [("a", insideTree (root.child "a")),
    ("a.b", .leaf (scalarLeaf .string (root.child "a.b")))], some (.of .resetAll "app")⟩

/-- A scalar has no boundary. -/
theorem hasBoundary_scalar (kind : Kind) :
    (Structure.scalar kind).hasBoundary noLabels = false :=
  Structure.hasBoundary_of_find rfl rfl rfl

/-- The boundary has a boundary: itself. -/
theorem hasBoundary_inside : inside.hasBoundary noLabels = true := by
  simp [Structure.hasBoundary, inside, Structure.boundary, Node.isBoundary]

/-- The boundary is compiled to its tree. -/
theorem compileAs_inside (mount : Mount) :
    inside.compileAs noLabels true mount = some (.ok (insideTree mount)) := by
  have inner : inside.inner noLabels = .shape [("b", .scalar .number)] none none := rfl
  rw [Structure.compileAs]
  simp only [inner, List.mapM_cons, List.mapM_nil, hasBoundary_scalar]
  rfl

/-- The structure of the two names is built. -/
theorem build_twoNames : build noLabels "app" twoNames {} = some (.ok twoNamesChunk) := by
  have clean : twoNames.audit noLabels = [] := by
    simp [Structure.audit_eq_nil_iff, Structure.survey, twoNames, inside, Node.parts,
      Structure.boundary, Structure.scalar, Visit.issueKinds, Node.explicit?, Node.isBoundary,
      Visit.isInArray]
  have root : Structure.ready (twoNames.inner noLabels) = twoNames := rfl
  have bounded : twoNames.hasBoundary noLabels = true := by
    simp [Structure.hasBoundary, twoNames, inside, Structure.boundary, Node.isBoundary,
      Node.children]
  have inner : twoNames.inner noLabels =
      .shape [("a", inside), ("a.b", .scalar .string)] none none := rfl
  have marked : (inside.resolve noLabels).isBoundary = true := rfl
  simp only [build, clean, compile, root, bounded, if_true, Structure.compile]
  rw [Structure.compileAs]
  simp only [inner, List.mapM_cons, List.mapM_nil, hasBoundary_scalar, hasBoundary_inside, marked,
    if_true, compileAs_inside]
  rfl

/-- The names are distinct everywhere. -/
theorem distinctNames_twoNames : twoNames.DistinctNames noLabels := by
  have plain (kind : Kind) : (Structure.scalar kind).DistinctNames noLabels := by
    have none : ((Structure.scalar kind).inner noLabels).children = [] := rfl
    exact Structure.distinctNames_of_children none List.nodup_nil (by simp)
  have inner : inside.DistinctNames noLabels := by
    have declared : (inside.inner noLabels).children = [("b", .scalar .number)] := rfl
    exact Structure.distinctNames_of_children declared (by decide) (by simp [plain])
  have declared : (twoNames.inner noLabels).children =
      [("a", inside), ("a.b", .scalar .string)] := rfl
  exact Structure.distinctNames_of_children declared (by decide) (by simp [plain, inner])

/-- The reset of the boundary `a` sets the number named `b` in it to its default, and not the string
named `a.b`. -/
theorem reduce_reset_of_build_twoNames :
    let creator : Creator := .of .resetAll "app.a"
    let state : Value := .object [("a", .object [("b", .number (.int 1))]), ("a.b", .string "kept")]
    let next := twoNamesChunk.reducer.reduce (some state) (creator.create .null)
    build noLabels "app" twoNames {} = some (.ok twoNamesChunk) ∧
      twoNames.DistinctNames noLabels ∧ twoNamesChunk.Resets ["a"] creator ∧
      Selector.path ["a", "b"] next = some (.number (.int 0)) ∧
      Selector.path ["a.b"] next = some (.string "kept") := by
  intro creator state next
  have distinct := distinctNames_twoNames
  have resets : twoNamesChunk.Resets ["a"] creator := .inl rfl
  have asks : (creator.create .null).type = creator.actionType := rfl
  have reset := (reduce_reset_of_build build_twoNames distinct resets asks (some state)).1
  obtain ⟨number, declared, atNumber⟩ := reset ["a", "b"] _ rfl
  obtain ⟨string, named, atString⟩ := reset ["a.b"] _ rfl
  obtain rfl := Option.some.inj declared
  obtain rfl := Option.some.inj named
  refine ⟨build_twoNames, distinct, resets, ?_, ?_⟩
  · rw [if_pos (by decide)] at atNumber
    exact atNumber
  · rw [if_neg (by decide)] at atString
    exact atString

end Chunk

end StateSlice
