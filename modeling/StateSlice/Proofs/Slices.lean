import StateSlice.Proofs.Conformance
import StateSlice.Proofs.ResetAll

/-!
# Conforming slices

A slice of state that conforms to its structure keeps conforming, whatever is dispatched. What a
leaf puts into its state is sanitized first, and what it takes out leaves the rest as it was, so
every operation of a leaf comes from a conforming state to a conforming state. A branch has the
states of its children under their names and nothing else. Where a state is absent, its leaves start
from their defaults; so the initial state has to conform as well.
-/
namespace StateSlice

open Json (Value Entries)

namespace Json.Entries

/-- What is among merged entries comes from the entries or from the patch. -/
theorem mem_or_mem_of_mem_merge {entries patch : Entries} {entry : String × Value}
    (member : entry ∈ merge entries patch) : entry ∈ entries ∨ entry ∈ patch := by
  induction patch generalizing entries with
  | nil => exact .inl member
  | cons first patch hypothesis =>
    rcases hypothesis member with earlier | later
    · rcases eq_or_mem_of_mem_insert earlier with same | old
      · exact .inr (List.mem_cons.2 (.inl same))
      · exact .inl old
    · exact .inr (List.mem_cons_of_mem _ later)

end Json.Entries

/-- What is read at a name of a conforming value conforms to the child of the name. -/
theorem Conforms.get? {scope : Scope} {content child : Structure}
    {children : List (String × Structure)} {wildcard : Option Structure} {explicit : Option Value}
    {value part : Value} {name : String} (conforms : Conforms scope content value)
    (node : content.inner scope = .shape children wildcard explicit)
    (declared : Shape.child? name children = some child)
    (found : Value.get? name value = some part) : Conforms scope child part := by
  obtain ⟨entries, rfl⟩ := conforms.exists_object node
  have member : (name, part) ∈ entries := Entries.mem_of_get? found
  obtain ⟨own, lookup, fits⟩ := (object_iff node).1 conforms (name, part) member
  obtain rfl : child = own := by simpa [Shape.lookup, declared] using lookup
  exact fits

namespace Leaf

section Operations

variable {leaf : Leaf} {state : Value}

/-- A replaced state conforms, as the payload does or as the state did. -/
theorem conforms_replace (isFor : leaf.container.IsFor (leaf.content.inner leaf.scope))
    (fits : Conforms leaf.scope leaf.content state) (payload : Value) :
    Conforms leaf.scope leaf.content (leaf.replace state payload) := by
  cases container : leaf.container with
  | value validator =>
    rw [container] at isFor
    cases isFor with
    | value owned =>
      simp only [replace, container]
      split
      · next accepted => exact .scalar owned accepted
      · exact fits
  | shape =>
    rw [container] at isFor
    cases isFor with
    | shape shaped =>
      simp only [replace, container]
      exact Structure.conforms_sanitizeShape shaped payload
  | array =>
    rw [container] at isFor
    cases isFor with
    | array listed =>
      simp only [replace, container]
      refine .arrayOf listed fun item member => ?_
      rw [← Structure.element_of_arrayOf listed]
      exact Structure.conforms_of_mem_sanitizeArray member

/-- An object with the kept entries of a payload merged into it conforms. -/
theorem conforms_update {children : List (String × Structure)} {wildcard : Option Structure}
    {explicit : Option Value}
    (shaped : leaf.content.inner leaf.scope = .shape children wildcard explicit)
    (fits : Conforms leaf.scope leaf.content state) (payload : Value) :
    Conforms leaf.scope leaf.content (leaf.update state payload) := by
  obtain ⟨entries, rfl⟩ := fits.exists_object shaped
  have kept := Structure.conforms_sanitizeShape shaped payload
  obtain ⟨patch, same⟩ := kept.exists_object shaped
  rw [same] at kept
  rw [update, same]
  refine (Conforms.object_iff shaped).2 fun entry member => ?_
  rcases Entries.mem_or_mem_of_mem_merge member with old | new
  · exact (Conforms.object_iff shaped).1 fits entry old
  · exact (Conforms.object_iff shaped).1 kept entry new

/-- An array from which an item is removed conforms. -/
theorem conforms_removeAt {element : Structure} {explicit : Option Value}
    (listed : leaf.content.inner leaf.scope = .arrayOf element explicit)
    (fits : Conforms leaf.scope leaf.content state) (index : Option UInt64) :
    Conforms leaf.scope leaf.content (removeAt state index) := by
  cases state with
  | array items =>
    cases index with
    | none => exact fits
    | some index =>
      refine .arrayOf listed fun item member => ?_
      cases fits with
      | scalar owned accepted => simp [listed, Node.ownValidator?] at owned
      | arrayOf own every =>
        obtain ⟨rfl, rfl⟩ := Node.arrayOf.inj (listed.symm.trans own)
        exact every item (List.mem_of_mem_eraseIdx member)
  | _ => exact fits

/-- A leaf that updates is one for a shape. -/
theorem container_of_update (asked : .update ∈ leaf.actions.operations) :
    leaf.container = .shape := by
  cases container : leaf.container <;>
    simp [LeafActions.operations, actions, Container.kind, container] at asked ⊢

/-- A leaf that removes items is one for an array. -/
theorem container_of_removeAtIndex (asked : .removeAtIndex ∈ leaf.actions.operations) :
    leaf.container = .array := by
  cases container : leaf.container <;>
    simp [LeafActions.operations, actions, Container.kind, container] at asked ⊢

/-- The state after an action that is no batch conforms. -/
theorem conforms_applySimple (isFor : leaf.container.IsFor (leaf.content.inner leaf.scope))
    (starts : Conforms leaf.scope leaf.content leaf.initial)
    (fits : Conforms leaf.scope leaf.content state) (type : String) (payload : Value)
    (index : Option UInt64) :
    Conforms leaf.scope leaf.content (leaf.applySimple state type payload index) := by
  rw [applySimple]
  cases asked : leaf.actions.operationFor? type with
  | none =>
    simp only
    by_cases reset : leaf.actions.isResetBy type
    · rwa [if_pos reset]
    · rwa [if_neg reset]
  | some operation =>
    have has := (LeafActions.operationFor?_eq_some_iff.1 asked).1
    cases operation with
    | replace => exact conforms_replace isFor fits payload
    | update =>
      rw [container_of_update has] at isFor
      cases isFor with
      | shape shaped => exact conforms_update shaped fits payload
    | reset => exact starts
    | removeAtIndex =>
      rw [container_of_removeAtIndex has] at isFor
      cases isFor with
      | array listed => exact conforms_removeAt listed fits index
    | resetAll => exact fits

end Operations

mutual
-- The recursion is that of `apply`: through the actions of a batch, and of the batches inside.

/-- What every action that is no batch preserves, every action preserves. -/
theorem apply_preserves (leaf : Leaf) (holds : Value → Prop)
    (simple : ∀ state type payload index, holds state →
      holds (leaf.applySimple state type payload index)) :
    ∀ (action : Action) (state : Value), holds state → holds (leaf.apply state action)
  | ⟨type, payload, index, _, actions⟩, state, before => by
    rw [apply]
    split
    · exact applyAll_preserves leaf holds simple actions state before
    · exact simple state type payload index before

/-- What every action that is no batch preserves, the actions of a batch preserve. -/
theorem applyAll_preserves (leaf : Leaf) (holds : Value → Prop)
    (simple : ∀ state type payload index, holds state →
      holds (leaf.applySimple state type payload index)) :
    ∀ (actions : List Action) (state : Value), holds state → holds (leaf.applyAll state actions)
  | [], state, before => by rwa [applyAll]
  | action :: actions, state, before => by
    rw [applyAll]
    split
    · have after : holds (leaf.apply state action) :=
        apply_preserves leaf holds simple action state before
      exact applyAll_preserves leaf holds simple actions _ after
    · exact applyAll_preserves leaf holds simple actions state before
end

end Leaf

namespace Reducer

variable {scope : Scope} {content : Structure}

/-- A reducer whose initial state conforms comes to conforming states only: from no state and from a
conforming one. -/
def Preserves (scope : Scope) (content : Structure) (reducer : Reducer) : Prop :=
  Conforms scope content reducer.initialState → ∀ state action,
    (∀ slice ∈ state, Conforms scope content slice) →
    Conforms scope content (reducer.reduce state action)

/-- Every state of a run of actions conforms if the reducer preserves conformance. -/
theorem Preserves.run {reducer : Reducer} (preserves : reducer.Preserves scope content)
    (starts : Conforms scope content reducer.initialState) {state : Option Value}
    (fits : ∀ slice ∈ state, Conforms scope content slice) (actions : List Action) :
    ∀ slice ∈ reducer.run state actions, Conforms scope content slice := by
  induction actions generalizing state with
  | nil => exact fits
  | cons action actions hypothesis =>
    have step : Conforms scope content (reducer.reduce state action) :=
      preserves starts state action fits
    exact hypothesis fun slice same => Option.some.inj same ▸ step

/-- Combined reducers preserve conformance to a shape if each child that writes a name preserves
conformance to what the shape declares for the name. -/
theorem combine_preserves {children : List (String × Structure)} {wildcard : Option Structure}
    {explicit : Option Value} {reducers : List (String × Reducer)}
    (node : content.inner scope = .shape children wildcard explicit)
    (parts : ∀ name reducer, writer? name reducers = some reducer → ∃ child,
      Shape.child? name children = some child ∧ reducer.Preserves scope child) :
    (combine reducers).Preserves scope content := by
  intro starts state action fits
  refine (Conforms.object_iff node).2 fun entry member => ?_
  obtain ⟨reducer, writes, written⟩ := exists_writer?_of_mem member
  obtain ⟨child, declared, preserves⟩ := parts entry.1 reducer writes
  have initial :
      Value.get? entry.1 (combine reducers).initialState = some reducer.initialState := by
    rw [initialState, get?_reduce_combine, writes]
    rfl
  -- Where the state has no value at the name, the child starts anew; so its initial state counts.
  have childStarts : Conforms scope child reducer.initialState :=
    starts.get? node declared initial
  have childFits : ∀ slice ∈ state.bind (Value.get? entry.1), Conforms scope child slice := by
    intro slice found
    obtain ⟨whole, same, read⟩ := Option.bind_eq_some_iff.1 found
    exact (fits whole same).get? node declared read
  refine ⟨child, by rw [Shape.lookup, declared]; rfl, ?_⟩
  rw [written]
  exact preserves childStarts _ action childFits

end Reducer

/-- The reducer of a leaf preserves conformance to the structure of the leaf. -/
theorem Leaf.reducer_preserves (leaf : Leaf)
    (isFor : leaf.container.IsFor (leaf.content.inner leaf.scope)) :
    leaf.reducer.Preserves leaf.scope leaf.content := by
  intro starts state action fits
  have initial : Conforms leaf.scope leaf.content leaf.initial :=
    leaf.apply_init leaf.initial ▸ starts
  have before : Conforms leaf.scope leaf.content (state.getD leaf.initial) := by
    cases state with
    | none => exact initial
    | some slice => exact fits slice rfl
  refine leaf.apply_preserves (Conforms leaf.scope leaf.content) ?_ action _ before
  intro state type payload index fits
  exact conforms_applySimple isFor initial fits type payload index

namespace Structure

variable {scope : Scope} {content : Structure}

/-- The reducer of a compiled leaf preserves conformance to the structure it is compiled from. -/
theorem preserves_of_compileLeaf {mount : Mount} {compiled : CompiledLeaf}
    (made : content.compileLeaf scope mount = .ok compiled) :
    compiled.leaf.reducer.Preserves scope content := by
  obtain ⟨container, isFor, rfl⟩ := eq_of_compileLeaf made
  let leaf : Leaf := ⟨scope, content, container, content.defaultValue scope, mount.location⟩
  exact leaf.reducer_preserves isFor

/-- The reducer of a compiled tree with distinct names preserves conformance to the structure it is
compiled from. -/
theorem preserves_of_compileAs {boundary : Bool} {mount : Mount} {tree : Tree CompiledLeaf}
    (ends : content.compileAs scope boundary mount = some (.ok tree)) (distinct : tree.Distinct) :
    (tree.map (·.leaf.reducer)).combined.Preserves scope content := by
  revert distinct
  refine compiled_induct (motive := fun content _ tree => tree.Distinct →
    (tree.map (·.leaf.reducer)).combined.Preserves scope content) ?_ ?_ ends
  · intro content mount leaf made distinct
    exact preserves_of_compileLeaf made
  · intro boundary content mount children wildcard explicit compiled node each distinct
    rw [Tree.combined_map_branch]
    refine Reducer.combine_preserves node fun name reducer writes => ?_
    rw [Tree.writer?_combined distinct] at writes
    obtain ⟨tree, found, rfl⟩ := Option.map_eq_some_iff.1 writes
    obtain ⟨entry, search, rfl⟩ := Option.map_eq_some_iff.1 found
    obtain ⟨child, declared, -, preserves⟩ :=
      child?_of_compiled (fun _ _ related => related.1) each search
    exact ⟨child, declared, preserves (distinct.get? found)⟩

end Structure

namespace Chunk

variable {scope : Scope} {name : String} {content : Structure} {options : ChunkOptions}
  {chunk : Chunk}

/-- The reducer of a chunk preserves conformance to the structure of the chunk. -/
theorem preserves_of_build (built : build scope name content options = some (.ok chunk))
    (distinct : content.DistinctNames scope) : chunk.reducer.Preserves scope content := by
  have inner : chunk.reducer.Preserves scope (.ready (content.inner scope)) := by
    obtain ⟨-, ends, -⟩ := build_cases built
    rcases compile_cases ends with ⟨compiled, -⟩ | ⟨-, leaf, made, tree⟩
    · exact Structure.preserves_of_compileAs compiled (distinct_of_build built distinct)
    · rw [reducer, reducers, tree]
      exact Structure.preserves_of_compileLeaf made
  have same : content.inner scope = (Structure.ready (content.inner scope)).inner scope :=
    (content.inner_ready_inner scope).symm
  intro starts state action fits
  rw [Structure.conforms_congr same] at starts ⊢
  exact inner starts state action fun slice held =>
    (Structure.conforms_congr same).1 (fits slice held)

/-- If the initial state of a chunk conforms to the structure of the chunk, then so does every slice
that actions, one after the other, come to from no state or from a conforming slice, whatever the
actions are. -/
theorem conform_run_of_build (built : build scope name content options = some (.ok chunk))
    (distinct : content.DistinctNames scope)
    (starts : content.conform scope chunk.initialState = some chunk.initialState)
    {state : Option Value} (fits : ∀ slice ∈ state, content.conform scope slice = some slice)
    (first : Action) (rest : List Action) :
    ∃ slice, chunk.reducer.run state (first :: rest) = some slice ∧
      content.conform scope slice = some slice ∧
      ((content.inner scope).tag = .shape → content.sanitizeShape scope slice = slice) := by
  have preserves := preserves_of_build built distinct
  have initial : Conforms scope content chunk.reducer.initialState :=
    Structure.conforms_of_conform starts
  have before : ∀ slice ∈ state, Conforms scope content slice := fun slice held =>
    Structure.conforms_of_conform (fits slice held)
  obtain ⟨actions, last, split⟩ := (List.eq_nil_or_concat (first :: rest)).resolve_left (by simp)
  rw [split, List.concat_eq_append, Reducer.run_concat]
  refine ⟨_, rfl, ?_⟩
  have conforms : Conforms scope content
      (chunk.reducer.reduce (chunk.reducer.run state actions) last) :=
    preserves initial _ last (preserves.run initial before actions)
  refine ⟨Structure.conform_of_conforms conforms, fun tagged => ?_⟩
  obtain ⟨children, wildcard, explicit, node⟩ := Node.eq_shape_of_tag tagged
  exact Structure.sanitizeShape_of_conforms node conforms

/-- From a slice without the number, by a text for the number, once by itself and once in a batch, a
conforming slice comes with the default of the number. -/
theorem conform_run_of_build_twoNames :
    let state : Value := .object [("a.b", .string "kept")]
    let wrong : Action := .simple "app.a.b/REPLACE" (.string "no number")
    let batch : Action := .batch "both" [wrong, .simple "elsewhere" .null]
    let slice : Value := .object [("a", .object [("b", .number (.int 0))]), ("a.b", .string "kept")]
    build noLabels "app" twoNames {} = some (.ok twoNamesChunk) ∧
      twoNames.DistinctNames noLabels ∧
      twoNames.conform noLabels twoNamesChunk.initialState = some twoNamesChunk.initialState ∧
      twoNames.conform noLabels state = some state ∧
      twoNamesChunk.reducer.run (some state) [wrong, batch] = some slice ∧
      twoNames.conform noLabels slice = some slice := by
  intro state wrong batch slice
  have distinct := distinctNames_twoNames
  have starts : twoNames.conform noLabels twoNamesChunk.initialState =
      some twoNamesChunk.initialState := rfl
  have fits : twoNames.conform noLabels state = some state := rfl
  have before : ∀ own ∈ some state, twoNames.conform noLabels own = some own := by
    intro own held
    obtain rfl := Option.some.inj held
    exact fits
  have comes : twoNamesChunk.reducer.run (some state) [wrong, batch] = some slice := by decide
  obtain ⟨own, result, conforms, -⟩ :=
    conform_run_of_build build_twoNames distinct starts before wrong [batch]
  obtain rfl := Option.some.inj (comes.symm.trans result)
  exact ⟨build_twoNames, distinct, starts, fits, comes, conforms⟩

end Chunk

end StateSlice
