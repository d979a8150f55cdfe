import StateSlice.Proofs.ResetAll

/-!
# Reading what a chunk writes

The reducer of a chunk, the reducers of its leaves and its selectors are made of one tree. The
reducer writes at every branch an object with the names of the branch, and under these names what
the reducers below come to; a selector reads along the same names. So a slice is read leaf by leaf
just as it was written, whatever the state before it was.
-/
namespace StateSlice

open Json (Value Entries)

namespace Tree

variable {α : Type}

/-- A mapped tree is a leaf exactly if the tree is. -/
theorem isLeaf_map {β : Type} (f : α → β) (tree : Tree α) :
    (tree.map f).isLeaf = tree.isLeaf := by
  cases tree <;> rfl

/-- A mapped tree has the names of the tree. -/
theorem keys_map {β : Type} (f : α → β) (tree : Tree α) : (tree.map f).keys = tree.keys := by
  cases tree with
  | leaf payload => rfl
  | branch location boundary children =>
    simp only [map, keys, Tree.children, mapChildren_eq_map, List.map_map]
    rfl

/-- At a branch a step writes an object with the names of the branch. -/
theorem exists_entries_of_branch {tree below : Tree α} (distinct : tree.Distinct)
    {f : α → Reducer} {path : List String} (found : tree.follow? path = some below)
    (branch : below.isLeaf = false) (state : Option Value) (action : Action) :
    ∃ entries : Entries,
      Selector.path path ((tree.map f).combined.reduce state action) = some (.object entries) ∧
        entries.names.Perm below.keys := by
  have written := path_reduce_of_follow? (f := f) distinct found state action
  have different := distinct path below found
  cases below with
  | leaf payload => simp [isLeaf] at branch
  | branch location boundary children =>
    rw [combined_map_branch] at written
    have names : (children.map fun child => (child.1, (child.2.map f).combined)).map (·.1) =
        (Tree.branch location boundary children).keys := by
      rw [List.map_map]
      rfl
    rw [← names] at different ⊢
    exact ⟨_, written, Reducer.perm_names_combineInto different _ action⟩

end Tree

namespace Chunk

variable {scope : Scope} {name : String} {content : Structure} {options : ChunkOptions}
  {chunk : Chunk}

/-- The selector of a leaf of a chunk reads along the path of the leaf from what the selector of the
chunk reads. -/
theorem selector_of_leaf? {path : List String} {compiled : CompiledLeaf}
    (built : build scope name content options = some (.ok chunk))
    (found : chunk.tree.leaf? path = some compiled) (host : Value) :
    compiled.selector host = ((mount name options).selector host).bind (Selector.path path) := by
  obtain ⟨place, -, placed⟩ := exists_compileLeaf_of_leaf? built found
  obtain ⟨container, -, rfl⟩ := Structure.eq_of_compileLeaf placed
  exact Mount.selector_descend _ path host

/-- After every step of a chunk, from whatever state, the slice has at every branch an object with
exactly the names of the branch, and at the path of every leaf what the reducer of the leaf makes of
the value that was there before. The selector of a leaf reads along the path of the leaf from what
the selector of the chunk reads; so in a host that holds the slice under the name of the chunk it
reads what the leaf has come to. -/
theorem select_reduce_of_build (built : build scope name content options = some (.ok chunk))
    (distinct : content.DistinctNames scope) (state : Option Value) (action : Action) :
    let slice := chunk.reducer.reduce state action
    (∀ path branch, chunk.reducers.follow? path = some branch → branch.isLeaf = false →
      ∃ entries : Entries, Selector.path path slice = some (.object entries) ∧
        entries.names.Perm branch.keys) ∧
    ∀ path reducer, chunk.reducers.leaf? path = some reducer →
      Selector.path path slice =
        some (reducer.reduce (state.bind (Selector.path path)) action) ∧
      (∀ host, chunk.selectors.select? path host =
        (options.selector?.getD (.key name) host).bind (Selector.path path)) ∧
      (options.selector? = none → ∀ host, Value.get? name host = some slice →
        chunk.selectors.select? path host =
          some (reducer.reduce (state.bind (Selector.path path)) action)) := by
  intro slice
  have apart := distinct_of_build built distinct
  constructor
  · intro path branch found inner
    rw [reducers, Tree.follow?_map] at found
    obtain ⟨below, leads, rfl⟩ := Option.map_eq_some_iff.1 found
    rw [Tree.isLeaf_map] at inner
    rw [Tree.keys_map]
    exact Tree.exists_entries_of_branch apart leads inner state action
  · intro path reducer found
    rw [reducers, Tree.leaf?_map] at found
    obtain ⟨compiled, leads, rfl⟩ := Option.map_eq_some_iff.1 found
    have written : Selector.path path slice =
        some (compiled.leaf.reducer.reduce (state.bind (Selector.path path)) action) :=
      path_reduce_of_build built distinct leads state action
    have selected (host : Value) : chunk.selectors.select? path host =
        (options.selector?.getD (.key name) host).bind (Selector.path path) := by
      rw [Tree.select?, selectors, Tree.leaf?_map, leads]
      exact selector_of_leaf? built leads host
    refine ⟨written, selected, fun unset host held => ?_⟩
    have own : options.selector?.getD (.key name) host = some slice := by
      rw [unset]
      exact held
    rw [selected, own]
    exact written

/-- From a text in place of the state, replacing the number named `b` under `a` writes an object at
`a`, and the number is read from a host under the name of the chunk. -/
theorem select_reduce_of_build_twoNames :
    let replace : Action := .simple "app.a.b/REPLACE" (.number (.int 2))
    let slice := twoNamesChunk.reducer.reduce (some (.string "no slice")) replace
    build noLabels "app" twoNames {} = some (.ok twoNamesChunk) ∧
      twoNames.DistinctNames noLabels ∧
      (∃ entries : Entries, Selector.path ["a"] slice = some (.object entries) ∧
        entries.names.Perm ["b"]) ∧
      twoNamesChunk.selectors.select? ["a", "b"] (.object [("app", slice)]) =
        some (.number (.int 2)) := by
  intro replace slice
  have distinct := distinctNames_twoNames
  obtain ⟨branches, leaves⟩ :=
    select_reduce_of_build build_twoNames distinct (some (.string "no slice")) replace
  obtain ⟨-, -, selected⟩ := leaves ["a", "b"] _ rfl
  refine ⟨build_twoNames, distinct, branches ["a"] _ rfl rfl, ?_⟩
  rw [selected rfl (.object [("app", slice)]) rfl]
  decide

end Chunk

end StateSlice
