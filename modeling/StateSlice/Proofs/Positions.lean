import StateSlice.Chunk
import StateSlice.Proofs.Compilation
import StateSlice.Proofs.Paths

/-!
# Positions of a structure in its compiled tree

A path of names leads to a position of a structure as it leads to a place in the compiled tree. What
is at a place of the tree is what its position is compiled to: a leaf of the position, or a branch
with its names, at the location of the path.
-/
namespace StateSlice

open Json (Value)

/-- The mount at the end of a path. -/
def Mount.descend (mount : Mount) (path : List String) : Mount := path.foldl child mount

/-- The location of the mount at the end of a path. -/
theorem Mount.location_descend (mount : Mount) (path : List String) :
    (mount.descend path).location = Location.descend mount.location path := by
  induction path generalizing mount with
  | nil => rfl
  | cons name path hypothesis => exact hypothesis (mount.child name)

/-- The selector of the mount at the end of a path reads along the path from what the mount
reads. -/
theorem Mount.selector_descend (mount : Mount) (path : List String) (host : Value) :
    (mount.descend path).selector host = (mount.selector host).bind (Selector.path path) := by
  have composed : (mount.descend path).selector = path.foldl Selector.thenKey mount.selector := by
    induction path generalizing mount with
    | nil => rfl
    | cons name path hypothesis => exact hypothesis (mount.child name)
  rw [composed, Selector.foldl_thenKey]

namespace Structure

variable (scope : Scope)

/-- The position at the end of a path: at each step the child that the inner node has under the
name. -/
def at? : List String → Structure → Option Structure
  | [], content => some content
  | name :: path, content => (Shape.child? name (content.inner scope).children).bind (at? path)

/-- The child of a name is among the children. -/
theorem mem_of_child? {children : List (String × Structure)} {name : String} {child : Structure}
    (found : Shape.child? name children = some child) : (name, child) ∈ children := by
  obtain ⟨entry, search, rfl⟩ := Option.map_eq_some_iff.1 found
  have named : entry.1 = name := by simpa using List.find?_some search
  have member := List.mem_of_find?_eq_some search
  rwa [← named]

/-- At every position the names of the children are distinct. -/
def DistinctNames (content : Structure) : Prop :=
  ∀ path position, content.at? scope path = some position →
    ((position.inner scope).children.map (·.1)).Nodup

variable {scope} {content : Structure}

/-- Names are distinct at every position if they are at the structure and below its children. -/
theorem distinctNames_of_children {children : List (String × Structure)}
    (declared : (content.inner scope).children = children)
    (distinct : (children.map (·.1)).Nodup)
    (below : ∀ child ∈ children, child.2.DistinctNames scope) : content.DistinctNames scope := by
  intro path position found
  cases path with
  | nil =>
    obtain rfl := Option.some.inj found
    rwa [declared]
  | cons name path =>
    rw [at?, declared, Shape.child?, Option.bind_map] at found
    obtain ⟨child, search, further⟩ := Option.bind_eq_some_iff.1 found
    exact below child (List.mem_of_find?_eq_some search) path position further

/-- The positions below a structure are those below its inner node. -/
theorem at?_ready_inner {path : List String} {position : Structure}
    (found : (Structure.ready (content.inner scope)).at? scope path = some position) :
    ∃ declared, content.at? scope path = some declared ∧
      declared.inner scope = position.inner scope := by
  cases path with
  | nil =>
    obtain rfl := Option.some.inj found
    exact ⟨content, rfl, (content.inner_ready_inner scope).symm⟩
  | cons name path =>
    rw [at?, inner_ready_inner] at found
    exact ⟨position, found, rfl⟩

/-- What a position is compiled to at a mount, as far as its children do not matter. -/
def CompiledTo (scope : Scope) (content : Structure) (mount : Mount) : Tree CompiledLeaf → Prop
  | .leaf leaf => content.compileLeaf scope mount = .ok leaf
  | .branch location _ children =>
    location = mount.location ∧ children.map (·.1) = (content.inner scope).children.map (·.1)

/-- Every place of a tree is what the position at its path is compiled to. -/
def IsMirroredBy (scope : Scope) (content : Structure) (mount : Mount) (tree : Tree CompiledLeaf) :
    Prop :=
  ∀ path below, tree.follow? path = some below → ∃ position,
    content.at? scope path = some position ∧ position.CompiledTo scope (mount.descend path) below

/-- The leaf of a structure mirrors it. -/
theorem isMirroredBy_leaf {mount : Mount} {leaf : CompiledLeaf}
    (made : content.compileLeaf scope mount = .ok leaf) :
    content.IsMirroredBy scope mount (.leaf leaf) := by
  intro path below found
  obtain ⟨rfl, rfl⟩ := Tree.follow?_leaf_eq_some_iff.1 found
  exact ⟨content, rfl, made⟩

section Related

variable {related : String × Structure → String × Tree CompiledLeaf → Prop}
  {children : List (String × Structure)} {compiled : List (String × Tree CompiledLeaf)}

/-- Compiled children have the names of the children that they are compiled from. -/
theorem names_of_compiled (named : ∀ child tree, related child tree → tree.1 = child.1)
    (each : List.Forall₂ related children compiled) :
    compiled.map (·.1) = children.map (·.1) := by
  induction each with
  | nil => rfl
  | cons first _ hypothesis => rw [List.map_cons, List.map_cons, named _ _ first, hypothesis]

/-- The first of a name among compiled children is compiled from the first of that name. -/
theorem child?_of_compiled (named : ∀ child tree, related child tree → tree.1 = child.1)
    (each : List.Forall₂ related children compiled) {name : String}
    {entry : String × Tree CompiledLeaf} (found : compiled.find? (·.1 == name) = some entry) :
    ∃ child, Shape.child? name children = some child ∧ related (name, child) entry := by
  induction each with
  | nil => simp at found
  | @cons child tree children compiled first _ hypothesis =>
    have same : tree.1 = child.1 := named child tree first
    by_cases here : child.1 = name
    · obtain rfl : tree = entry := by simpa [same, here] using found
      exact ⟨child.2, by simp [Shape.child?, here], here ▸ first⟩
    · obtain ⟨below, known, compiledFrom⟩ := hypothesis (by simpa [same, here] using found)
      exact ⟨below, by simpa [Shape.child?, here] using known, compiledFrom⟩

end Related

/-- A branch mirrors a shape if its children have the names of those of the shape and mirror
them. -/
theorem isMirroredBy_branch {mount : Mount} {boundary : Bool}
    {compiled : List (String × Tree CompiledLeaf)}
    (each : List.Forall₂ (fun child tree => tree.1 = child.1 ∧
      child.2.IsMirroredBy scope (mount.child child.1) tree.2)
      (content.inner scope).children compiled) :
    content.IsMirroredBy scope mount (.branch mount.location boundary compiled) := by
  intro path below found
  cases path with
  | nil =>
    obtain rfl := Option.some.inj found
    exact ⟨content, rfl, rfl, names_of_compiled (fun _ _ related => related.1) each⟩
  | cons name path =>
    obtain ⟨entry, search, further⟩ := Tree.follow?_branch_eq_some_iff.1 found
    obtain ⟨child, first, -, mirrored⟩ :=
      child?_of_compiled (fun _ _ related => related.1) each search
    obtain ⟨position, known, placed⟩ := mirrored path below further
    refine ⟨position, ?_, placed⟩
    rw [at?, first]
    exact known

/-- What a structure is compiled to mirrors it. -/
theorem isMirroredBy_of_compileAs {boundary : Bool} {mount : Mount} {tree : Tree CompiledLeaf}
    (ends : content.compileAs scope boundary mount = some (.ok tree)) :
    content.IsMirroredBy scope mount tree := by
  refine compiled_induct (motive := fun content mount tree =>
    content.IsMirroredBy scope mount tree) ?_ ?_ ends
  · intro content mount leaf made
    exact isMirroredBy_leaf made
  · intro boundary content mount children wildcard explicit compiled node each
    have declared : (content.inner scope).children = children := by rw [node]; rfl
    exact isMirroredBy_branch (declared ▸ each)

/-- A tree that mirrors a structure with distinct names has distinct names. -/
theorem IsMirroredBy.distinct {mount : Mount} {tree : Tree CompiledLeaf}
    (mirrored : content.IsMirroredBy scope mount tree) (distinct : content.DistinctNames scope) :
    tree.Distinct := by
  intro path below found
  obtain ⟨position, known, placed⟩ := mirrored path below found
  cases below with
  | leaf leaf => exact List.nodup_nil
  | branch location boundary children =>
    have names := distinct path position known
    rwa [← placed.2] at names

/-- The inner node of a structure with distinct names has distinct names. -/
theorem DistinctNames.ready_inner (distinct : content.DistinctNames scope) :
    (Structure.ready (content.inner scope)).DistinctNames scope := by
  intro path position known
  obtain ⟨declared, found, same⟩ := at?_ready_inner known
  rw [← same]
  exact distinct path declared found

end Structure

namespace Chunk

variable {scope : Scope} {name : String} {content : Structure} {options : ChunkOptions}
  {chunk : Chunk}

/-- What a structure is compiled to as a chunk: the tree of its inner node and the reset of the
whole if it has a boundary, and a leaf otherwise. -/
theorem compile_cases {mount : Mount} {tree : Tree CompiledLeaf} {resetAll : Option Creator}
    (ends : compile scope content mount = some (.ok (tree, resetAll))) :
    let root : Structure := .ready (content.inner scope)
    (root.compileAs scope true mount = some (.ok tree) ∧
        resetAll = some (.of .resetAll mount.location)) ∨
      resetAll = none ∧ ∃ leaf, root.compileLeaf scope mount = .ok leaf ∧ tree = .leaf leaf := by
  intro root
  unfold compile at ends
  by_cases nested : root.hasBoundary scope
  · simp only [root, nested, if_true] at ends
    obtain ⟨result, compiled, made⟩ := Option.map_eq_some_iff.1 ends
    cases result with
    | error error => simp [Except.map] at made
    | ok own =>
      obtain ⟨rfl, rfl⟩ : own = tree ∧ some (Creator.of .resetAll mount.location) = resetAll := by
        simpa [Except.map] using made
      exact .inl ⟨compiled, rfl⟩
  · obtain ⟨container, made⟩ := root.compileLeaf_eq_ok scope mount
    simp only [root, nested, made] at ends
    obtain ⟨rfl, rfl⟩ : Tree.leaf _ = tree ∧ none = resetAll := by simpa [Except.map] using ends
    exact .inr ⟨rfl, _, made, rfl⟩

/-- A chunk that is built has a structure without issues, and is what the structure is compiled to
at the mount of the chunk. -/
theorem build_cases (built : build scope name content options = some (.ok chunk)) :
    content.audit scope = [] ∧
      compile scope content (mount name options) = some (.ok (chunk.tree, chunk.resetAll)) ∧
      chunk.location = (mount name options).location ∧ chunk.name = name := by
  unfold build at built
  split at built
  · next clean =>
    obtain ⟨result, ends, made⟩ := Option.map_eq_some_iff.1 built
    cases result with
    | error error => simp [Except.map, Except.mapError] at made
    | ok parts =>
      obtain ⟨tree, resetAll⟩ := parts
      obtain rfl : Chunk.mk name (mount name options).location tree resetAll = chunk :=
        Except.ok.inj made
      exact ⟨clean, ends, rfl, rfl⟩
  · simp at built

/-- The tree of a chunk mirrors the inner node of its structure at the mount of the chunk; if the
chunk is reset as a whole, it is reset at its location. -/
theorem of_build (built : build scope name content options = some (.ok chunk)) :
    chunk.location = (mount name options).location ∧
    (Structure.ready (content.inner scope)).IsMirroredBy scope (mount name options) chunk.tree ∧
    ∀ creator, chunk.resetAll = some creator → creator = .of .resetAll chunk.location := by
  obtain ⟨-, ends, located, -⟩ := build_cases built
  rcases compile_cases ends with ⟨compiled, reset⟩ | ⟨reset, leaf, made, tree⟩
  · refine ⟨located, Structure.isMirroredBy_of_compileAs compiled, fun creator same => ?_⟩
    rw [reset] at same
    rw [located]
    exact (Option.some.inj same).symm
  · refine ⟨located, ?_, fun creator same => ?_⟩
    · rw [tree]
      exact Structure.isMirroredBy_leaf made
    · rw [reset] at same
      simp at same

/-- The tree of a chunk has distinct names if its structure has. -/
theorem distinct_of_build (built : build scope name content options = some (.ok chunk))
    (distinct : content.DistinctNames scope) : chunk.tree.Distinct :=
  (of_build built).2.1.distinct distinct.ready_inner

/-- A leaf at a path of a chunk is compiled from the position at the path, at the mount at the end
of the path. -/
theorem exists_compileLeaf_of_leaf? {path : List String} {compiled : CompiledLeaf}
    (built : build scope name content options = some (.ok chunk))
    (found : chunk.tree.leaf? path = some compiled) : ∃ place,
      (Structure.ready (content.inner scope)).at? scope path = some place ∧
      place.compileLeaf scope ((mount name options).descend path) = .ok compiled := by
  obtain ⟨-, mirrored, -⟩ := of_build built
  exact mirrored path _ (Tree.follow?_of_leaf? found)

/-- A leaf at a path of a chunk is at the location of the path, and starts from the default that the
structure declares at the path. -/
theorem exists_at?_of_leaf? {path : List String} {compiled : CompiledLeaf}
    (built : build scope name content options = some (.ok chunk))
    (found : chunk.tree.leaf? path = some compiled) :
    compiled.leaf.location = Location.descend chunk.location path ∧
      ∃ position, content.at? scope path = some position ∧
        compiled.leaf.initial = position.defaultValue scope := by
  obtain ⟨place, known, placed⟩ := exists_compileLeaf_of_leaf? built found
  obtain ⟨container, -, rfl⟩ := Structure.eq_of_compileLeaf placed
  obtain ⟨position, declared, same⟩ := Structure.at?_ready_inner known
  have located : ((mount name options).descend path).location =
      Location.descend chunk.location path := by
    rw [Mount.location_descend, (of_build built).1]
  refine ⟨located, position, declared, ?_⟩
  rw [Structure.defaultValue, Structure.defaultValue, same]

/-- With distinct names, what is read at the path of a leaf after a step of a chunk is the step of
the leaf, from what is read there before. -/
theorem path_reduce_of_build {path : List String} {compiled : CompiledLeaf}
    (built : build scope name content options = some (.ok chunk))
    (distinct : content.DistinctNames scope) (found : chunk.tree.leaf? path = some compiled)
    (state : Option Value) (action : Action) :
    Selector.path path (chunk.reducer.reduce state action) =
      some (compiled.leaf.reducer.reduce (state.bind (Selector.path path)) action) :=
  Tree.path_reduce (distinct_of_build built distinct) found state action

end Chunk

end StateSlice
