import StateSlice.Proofs.Selection

/-!
# What building comes to

Every structure has a leaf, since its inner node is a scalar with a validator, a shape or an array;
so compiling never fails, and the issues of the audit are the only thing that keeps a structure from
being built. A structure that has a boundary inside is a shape, and is compiled to a branch; the
reset of the whole chunk is there for just these.
-/
namespace StateSlice

open Json (Value)

namespace Structure

variable {scope : Scope} {content : Structure}

/-- Compiling makes no error, and the tree is a leaf exactly if the inner node is no shape. -/
theorem exists_tree_of_compileAs {boundary : Bool} {mount : Mount}
    {result : Except UnknownType (Tree CompiledLeaf)}
    (ends : content.compileAs scope boundary mount = some result) :
    ∃ tree, result = .ok tree ∧ (tree.isLeaf = true ↔ (content.inner scope).tag ≠ .shape) := by
  refine compileAs_induct (motive := fun _ content _ tree =>
    tree.isLeaf = true ↔ (content.inner scope).tag ≠ .shape) ?_ ?_ ends
  · intro boundary content mount compiled plain made
    exact iff_of_true rfl plain
  · intro boundary content mount children wildcard explicit compiled node related
    refine iff_of_false Bool.false_ne_true ?_
    rw [node]
    exact fun plain => plain rfl

/-- The inner node of a structure is a shape if it has a boundary. -/
theorem tag_of_hasBoundary
    (bounded : (Structure.ready (content.inner scope)).hasBoundary scope = true) :
    (content.inner scope).tag = .shape := by
  rw [hasBoundary, reachesBoundary_ready, content.isBoundary_inner, Bool.false_or,
    List.any_eq_true] at bounded
  obtain ⟨child, member, -⟩ := bounded
  exact Node.tag_of_mem_children member

end Structure

namespace Chunk

variable {scope : Scope} {name : String} {content : Structure} {options : ChunkOptions}

/-- Compiling a structure as a chunk makes no error, and there is a reset of the whole exactly if
the tree is a branch. -/
theorem exists_tree_of_compile {mount : Mount}
    {result : Except UnknownType (Tree CompiledLeaf × Option Creator)}
    (ends : compile scope content mount = some result) :
    ∃ tree resetAll, result = .ok (tree, resetAll) ∧
      (resetAll.isSome = true ↔ tree.isLeaf = false) := by
  unfold compile at ends
  by_cases nested : (Structure.ready (content.inner scope)).hasBoundary scope = true
  · simp only [nested, if_true] at ends
    obtain ⟨compiled, made, rfl⟩ := Option.map_eq_some_iff.1 ends
    obtain ⟨tree, rfl, leafIff⟩ := Structure.exists_tree_of_compileAs made
    have branch : tree.isLeaf = false := by
      rw [← Bool.not_eq_true, leafIff, content.inner_ready_inner]
      exact fun plain => plain (Structure.tag_of_hasBoundary nested)
    exact ⟨tree, _, rfl, iff_of_true rfl branch⟩
  · obtain ⟨container, made⟩ :=
      (Structure.ready (content.inner scope)).compileLeaf_eq_ok scope mount
    simp only [nested, made] at ends
    obtain rfl := Option.some.inj ends
    exact ⟨_, none, rfl, iff_of_false Bool.false_ne_true Bool.false_ne_true.symm⟩

/-- Compiling a structure as a chunk ends if compiling the structure does. -/
theorem isSome_compile {mount : Mount} (ends : (content.compile scope mount).isSome = true) :
    (compile scope content mount).isSome = true := by
  unfold compile
  by_cases nested : (Structure.ready (content.inner scope)).hasBoundary scope = true
  · have accessible := Structure.isSome_compileAs_iff.1 ends
    have root : Acc (Structure.GoesOn scope) (.ready (content.inner scope)) := by
      refine ⟨_, fun next goesOn => accessible.inv ?_⟩
      rwa [Structure.GoesOn, content.inner_ready_inner] at goesOn
    simp only [nested, if_true, Option.isSome_map]
    exact Structure.isSome_compileAs_iff.2 root
  · simp [nested]

/-- Building fails exactly if the audit finds issues, and the error has these issues. -/
theorem build_eq_error_iff {error : BuildError} :
    build scope name content options = some (.error error) ↔
      content.audit scope ≠ [] ∧ error = .invalidStructure (content.audit scope) := by
  unfold build
  cases issues : content.audit scope with
  | nil =>
    refine iff_of_false (fun fails => ?_) (fun found => found.1 rfl)
    obtain ⟨compiled, ends, failed⟩ := Option.map_eq_some_iff.1 fails
    obtain ⟨tree, resetAll, rfl, -⟩ := exists_tree_of_compile ends
    exact nomatch failed
  | cons first rest => simp [eq_comm]

/-- A structure without issues is built if compiling it ends. -/
theorem exists_build (clean : content.audit scope = [])
    (ends : (content.compile scope (mount name options)).isSome = true) :
    ∃ chunk, build scope name content options = some (.ok chunk) ∧
      (chunk.resetAll.isSome = true ↔ chunk.tree.isLeaf = false) := by
  obtain ⟨result, compiled⟩ := Option.isSome_iff_exists.1 (isSome_compile ends)
  obtain ⟨tree, resetAll, rfl, reset⟩ := exists_tree_of_compile compiled
  refine ⟨⟨name, (mount name options).location, tree, resetAll⟩, ?_, reset⟩
  simp only [build, clean, compiled]
  rfl

/-- Building fails on issues of the audit and on nothing else. No inner node is a boundary, and
every structure has a leaf at every location. Building comes to an error exactly if the audit finds
issues, and the error has these issues in their order; if it finds none and compiling the structure
ends, building comes to a chunk, which is reset as a whole exactly if its trees are branches. -/
theorem build_outcome (scope : Scope) (content : Structure) :
    (content.inner scope).isBoundary = false ∧
    (∀ location, ∃ leaf, Leaf.of scope content location = .ok leaf) ∧
    ∀ name options,
      (∀ error, build scope name content options = some (.error error) ↔
        content.audit scope ≠ [] ∧ error = .invalidStructure (content.audit scope)) ∧
      ((content.compile scope (mount name options)).isSome = true → content.audit scope = [] →
        ∃ chunk, build scope name content options = some (.ok chunk) ∧
          (chunk.resetAll.isSome = true ↔ chunk.reducers.isLeaf = false) ∧
          (chunk.resetAll.isSome = true ↔ chunk.actions.isLeaf = false) ∧
          (chunk.resetAll.isSome = true ↔ chunk.selectors.isLeaf = false)) := by
  refine ⟨content.isBoundary_inner scope, fun location => ?_, fun name options =>
    ⟨fun error => build_eq_error_iff, fun ends clean => ?_⟩⟩
  · obtain ⟨container, -, made⟩ := Leaf.of_eq_ok scope content location
    exact ⟨_, made⟩
  · obtain ⟨chunk, built, reset⟩ := exists_build clean ends
    refine ⟨chunk, built, ?_⟩
    simp only [reducers, actions, selectors, Tree.isLeaf_map]
    exact ⟨reset, reset, reset⟩

/-- A number with a text for its default is not built, for that reason alone; the two names are
built, to trees that are branches and with a reset of the whole. -/
theorem build_outcome_twoNames :
    let wrong := (Structure.scalar .number).withDefault (.string "zero")
    let issues : List Issue := [⟨.defaultMismatch, []⟩]
    (wrong.audit noLabels = issues ∧
      build noLabels "app" wrong {} = some (.error (.invalidStructure issues))) ∧
    (twoNames.compile noLabels (mount "app" {})).isSome = true ∧
    twoNames.audit noLabels = [] ∧ ∃ chunk,
      build noLabels "app" twoNames {} = some (.ok chunk) ∧ chunk.resetAll.isSome = true ∧
        chunk.actions.isLeaf = false := by
  intro wrong issues
  have found : wrong.audit noLabels = issues := by
    rw [Structure.audit, Structure.survey, Structure.surveyFrom_eq]
    rfl
  have fails := ((build_outcome noLabels wrong).2.2 "app" {}).1 (.invalidStructure issues)
  rw [found] at fails
  obtain ⟨clean, ends, -⟩ := build_cases build_twoNames
  rcases compile_cases ends with ⟨compiled, -⟩ | ⟨reset, -⟩
  · have whole : (twoNames.compile noLabels (mount "app" {})).isSome = true :=
      Option.isSome_of_eq_some compiled
    obtain ⟨chunk, built, -, actions, -⟩ :=
      ((build_outcome noLabels twoNames).2.2 "app" {}).2 whole clean
    obtain rfl : twoNamesChunk = chunk := by
      simpa [build_twoNames] using built
    exact ⟨⟨found, fails.2 ⟨List.cons_ne_nil _ _, rfl⟩⟩, whole, clean, twoNamesChunk, built, rfl,
      actions.1 rfl⟩
  · cases reset

end Chunk

end StateSlice
