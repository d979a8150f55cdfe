import StateSlice.Proofs.SingleValues

/-!
# Declaring another default

A default that is declared for a structure from outside arrives at the node inside its boundaries
and deferrals, and nothing else about the structure changes. A deferral with another default takes
one hop, whatever the hops were before, and as many boundaries enclose the node as before; so a node
within the limits stays within them.
-/
namespace StateSlice

open Json (Value)

namespace Node

/-- With another default a node has the same tag. -/
@[simp]
theorem tag_withDefault (value : Value) (node : Node) :
    (node.withDefault value).tag = node.tag := by
  cases node <;> rfl

/-- With another default a node is a boundary exactly if it is one. -/
@[simp]
theorem isBoundary_withDefault (value : Value) (node : Node) :
    (node.withDefault value).isBoundary = node.isBoundary := by
  cases node <;> rfl

/-- With another default a node has the same validator of its own. -/
@[simp]
theorem ownValidator?_withDefault (value : Value) (node : Node) :
    (node.withDefault value).ownValidator? = node.ownValidator? := by
  cases node <;> rfl

/-- The default of a node that is no boundary is the one that was declared for it. -/
theorem ownDefault_withDefault {node : Node} (plain : node.isBoundary = false) (value : Value) :
    (node.withDefault value).ownDefault = value := by
  cases node with
  | boundary inner => exact nomatch plain
  | _ => rfl

end Node

/-- A node that is within the limit from one hop further away is within it. -/
theorem Landing.node?_of_later {landing : Landing} {node : Node}
    (found : landing.later.node? = some node) : landing.node? = some node := by
  cases landing with
  | endless => exact nomatch found
  | reaches hops own =>
    obtain ⟨few, rfl⟩ : hops + 1 ≤ maxHops ∧ own = node := by
      simpa [later, node?] using found
    exact if_pos (Nat.le_of_succ_le few)

namespace Structure

variable {scope : Scope} {content other : Structure} {node : Node}

/-- With another default a structure is deferred exactly if it is. -/
theorem isDeferred_withDefault (value : Value) (content : Structure) :
    (content.withDefault value).isDeferred = content.isDeferred := by
  cases content <;> rfl

/-- A node that a structure resolves to within the limit it also resolves to when another default is
declared for it, and then the node has that default. -/
theorem resolve?_withDefault (resolved : content.resolve? scope = some node) (value : Value) :
    (content.withDefault value).resolve? scope = some (node.withDefault value) := by
  cases content with
  | ready own =>
    obtain rfl : own = node := by simpa using resolved
    rw [withDefault, resolve?_ready]
  | deferred deferral =>
    -- What the deferral produces is followed anew, so the hop to it is not counted.
    have reached : (deferral.landing scope).node? = some node :=
      Landing.node?_of_later resolved
    rw [withDefault, resolve?, landing, Deferral.landing, reached]
    rfl

/-- A node that boundaries enclose is enclosed in as many with another default. -/
theorem encloses_withDefault {boundaries : Nat}
    (encloses : content.Encloses scope boundaries node) (value : Value) :
    (content.withDefault value).Encloses scope boundaries (node.withDefault value) := by
  induction boundaries generalizing content with
  | zero =>
    obtain ⟨resolved, plain⟩ := encloses_zero_iff.1 encloses
    refine encloses_zero_iff.2 ⟨resolve?_withDefault resolved value, ?_⟩
    rw [Node.isBoundary_withDefault, plain]
  | succ boundaries hypothesis =>
    obtain ⟨inner, resolved, further⟩ := encloses_succ_iff.1 encloses
    exact encloses_succ_iff.2
      ⟨inner.withDefault value, resolve?_withDefault resolved value, hypothesis further⟩

/-- Where a node is enclosed the structure resolves to its node with another default. -/
theorem resolve_withDefault {boundaries : Nat} (encloses : content.Encloses scope boundaries node)
    (value : Value) :
    (content.withDefault value).resolve scope = (content.resolve scope).withDefault value := by
  obtain ⟨own, resolved⟩ : ∃ own, content.resolve? scope = some own := by
    cases boundaries with
    | zero => exact ⟨node, (encloses_zero_iff.1 encloses).1⟩
    | succ boundaries =>
      obtain ⟨inner, resolved, -⟩ := encloses_succ_iff.1 encloses
      exact ⟨_, resolved⟩
  rw [resolve, resolve, resolve?_withDefault resolved value, resolved]
  rfl

/-- What is kept of a value does not depend on the default of the inner node. -/
theorem conform_of_inner_withDefault {value : Value}
    (same : other.inner scope = (content.inner scope).withDefault value) (input : Value) :
    other.conform scope input = content.conform scope input := by
  cases node : content.inner scope <;> cases input <;>
    simp [conform, same, node, Node.withDefault, Node.keep?, Node.ownValidator?]

/-- What is kept of an object does not depend on the default of the inner node. -/
theorem sanitizeShape_of_inner_withDefault {value : Value}
    (same : other.inner scope = (content.inner scope).withDefault value) (input : Value) :
    other.sanitizeShape scope input = content.sanitizeShape scope input := by
  cases node : content.inner scope <;> cases input <;>
    simp [sanitizeShape, same, node, Node.withDefault]

/-- What is kept of the items of an array does not depend on the default of the inner node. -/
theorem sanitizeArray_of_inner_withDefault {value : Value}
    (same : other.inner scope = (content.inner scope).withDefault value) (input : Value) :
    other.sanitizeArray scope input = content.sanitizeArray scope input := by
  have items : ∀ item, (other.element scope).conform scope item =
      (content.element scope).conform scope item := by
    intro item
    rw [Structure.element, Structure.element, same]
    cases content.inner scope with
    | arrayOf element explicit => rfl
    | _ => exact conform_of_inner_withDefault same item
  cases input with
  | array given =>
    rw [sanitizeArray, sanitizeArray, conformItems_eq_filterMap, conformItems_eq_filterMap]
    exact List.filterMap_congr fun item _ => items item
  | _ => rfl

/-- What is kept of a scalar depends on the validator of the node for scalars, and the error on the
tag. -/
theorem sanitizeScalar_congr
    (validators : (other.scalarNode scope).ownValidator? =
      (content.scalarNode scope).ownValidator?)
    (tags : other.tag scope = content.tag scope) (value : Value) :
    other.sanitizeScalar scope value = content.sanitizeScalar scope value := by
  cases owned : (content.scalarNode scope).ownValidator? with
  | none =>
    rw [sanitizeScalar_of_container owned, sanitizeScalar_of_container (validators.trans owned),
      tags]
  | some validator =>
    rw [sanitizeScalar_of_validator owned, sanitizeScalar_of_validator (validators.trans owned)]

/-- A structure is used like another one: both are deferred or both not, both are boundaries or both
not, and the same is kept of every value. -/
structure ActsLike (scope : Scope) (content other : Structure) : Prop where
  /-- Both are deferred or both not. -/
  isDeferred : content.isDeferred = other.isDeferred
  /-- Both resolve to boundaries or both do not. -/
  isBoundary : (content.resolve scope).isBoundary = (other.resolve scope).isBoundary
  /-- The same is kept of an object. -/
  sanitizeShape : ∀ value, content.sanitizeShape scope value = other.sanitizeShape scope value
  /-- The same is kept of an array. -/
  sanitizeArray : ∀ value, content.sanitizeArray scope value = other.sanitizeArray scope value
  /-- The same is kept of a scalar, or the same error is made. -/
  sanitizeScalar : ∀ value, content.sanitizeScalar scope value = other.sanitizeScalar scope value

namespace ActsLike

/-- What is used like another is what the other is used like. -/
theorem symm (like : content.ActsLike scope other) : other.ActsLike scope content :=
  ⟨like.isDeferred.symm, like.isBoundary.symm, fun value => (like.sanitizeShape value).symm,
    fun value => (like.sanitizeArray value).symm, fun value => (like.sanitizeScalar value).symm⟩

/-- To be used alike goes on from structure to structure. -/
theorem trans {third : Structure} (like : content.ActsLike scope other)
    (next : other.ActsLike scope third) : content.ActsLike scope third where
  isDeferred := like.isDeferred.trans next.isDeferred
  isBoundary := like.isBoundary.trans next.isBoundary
  sanitizeShape value := (like.sanitizeShape value).trans (next.sanitizeShape value)
  sanitizeArray value := (like.sanitizeArray value).trans (next.sanitizeArray value)
  sanitizeScalar value := (like.sanitizeScalar value).trans (next.sanitizeScalar value)

end ActsLike

variable {boundaries : Nat}

/-- A structure within the limits is used alike with whatever default. -/
theorem actsLike_withDefault (few : boundaries ≤ maxHops)
    (encloses : content.Encloses scope boundaries node) (value : Value) :
    (content.withDefault value).ActsLike scope content := by
  have overridden := encloses_withDefault encloses value
  have inner : (content.withDefault value).inner scope =
      (content.inner scope).withDefault value := by
    rw [inner_of_encloses few overridden, inner_of_encloses few encloses]
  have resolves := resolve_withDefault encloses value
  refine ⟨isDeferred_withDefault value content, ?_, sanitizeShape_of_inner_withDefault inner,
    sanitizeArray_of_inner_withDefault inner, fun input => ?_⟩
  · rw [resolves, Node.isBoundary_withDefault]
  · have found : content.scalarNode scope = node :=
      scalarNode_of_encloses (Nat.le_succ_of_le few) encloses
    have also : (content.withDefault value).scalarNode scope = node.withDefault value :=
      scalarNode_of_encloses (Nat.le_succ_of_le few) overridden
    refine sanitizeScalar_congr ?_ ?_ input
    · rw [found, also, Node.ownValidator?_withDefault]
    · rw [tag, tag, resolves, Node.tag_withDefault]

/-- The default of a structure within the limits is the one that was declared for it last. -/
theorem defaultValue_withDefault (few : boundaries ≤ maxHops)
    (encloses : content.Encloses scope boundaries node) (value : Value) :
    (content.withDefault value).defaultValue scope = value := by
  have ⟨_, _, _, plain⟩ := encloses
  rw [defaultValue, inner_of_encloses few (encloses_withDefault encloses value),
    Node.ownDefault_withDefault plain]

/-- Another default is all that changes when one is declared for a structure within the limits,
however boundaries and deferrals alternate around its node: the default is the declared one, and the
structure is used as before. Declaring a second default is declaring that one alone. A leaf of the
structure starts from the declared default, and its own reset and that of every boundary around it
bring it back there. -/
theorem withDefault_outcome (few : boundaries ≤ maxHops)
    (encloses : content.Encloses scope boundaries node) (value another : Value)
    (location : String) :
    let overridden := content.withDefault value
    (overridden.defaultValue scope = value ∧ overridden.ActsLike scope content) ∧
    ((overridden.withDefault another).defaultValue scope = another ∧
      (content.withDefault another).defaultValue scope = another ∧
      (overridden.withDefault another).ActsLike scope (content.withDefault another)) ∧
    ∃ leaf, Leaf.of scope overridden location = .ok leaf ∧
      leaf.reducer.initialState = value ∧
      (∀ (state : Option Value) (action : Action),
        action.type = Operation.reset.actionType location →
        leaf.reducer.reduce state action = value) ∧
      ∀ (boundary : String) (state : Option Value) (action : Action),
        Location.isWithin location boundary = true →
        action.type = Operation.resetAll.actionType boundary →
        leaf.reducer.reduce state action = value := by
  intro overridden
  have within : overridden.Encloses scope boundaries (node.withDefault value) :=
    encloses_withDefault encloses value
  have default : overridden.defaultValue scope = value :=
    defaultValue_withDefault few encloses value
  have like : overridden.ActsLike scope content := actsLike_withDefault few encloses value
  refine ⟨⟨default, like⟩, ⟨defaultValue_withDefault few within another,
    defaultValue_withDefault few encloses another, ?_⟩, ?_⟩
  · have second := actsLike_withDefault few within another
    have alone := actsLike_withDefault few encloses another
    exact (second.trans like).trans alone.symm
  · obtain ⟨container, -, made⟩ := Leaf.of_eq_ok scope overridden location
    let leaf : Leaf := ⟨scope, overridden, container, overridden.defaultValue scope, location⟩
    refine ⟨leaf, made, ?_, fun state action asks => ?_,
      fun boundary state action inside asks => ?_⟩
    · exact (leaf.apply_init leaf.initial).trans default
    · have reset : leaf.reducer.reduce state action = leaf.initial := Leaf.reduce_reset asks state
      exact reset.trans default
    · have reset : leaf.reducer.reduce state action = leaf.initial := by
        rw [Leaf.reduce_resetAll_at asks, if_pos inside]
      exact reset.trans default

/-- A number in a deferred boundary, and deferred inside it once more. -/
def hiddenNumber : Structure := .lazily (.boundary (.lazily (.scalar .number)))

/-- Five as the default of the hidden number arrives at the number: the leaf starts from five and
comes back to it, and texts are dropped as before. -/
theorem withDefault_outcome_hiddenNumber :
    let scope := Chunk.noLabels
    let five : Value := .number (.int 5)
    let overridden := hiddenNumber.withDefault five
    let creator : Creator := .of .reset "n"
    1 ≤ maxHops ∧ hiddenNumber.Encloses scope 1 (.scalar .number none) ∧
      hiddenNumber.defaultValue scope = .number (.int 0) ∧
      overridden.defaultValue scope = five ∧
      overridden.sanitizeScalar scope (.string "five") = .ok none ∧
      ∃ leaf, Leaf.of scope overridden "n" = .ok leaf ∧
        leaf.reducer.reduce (some .null) (creator.create .null) = five := by
  intro scope five overridden creator
  have few : 1 ≤ maxHops := by decide
  have encloses : hiddenNumber.Encloses scope 1 (.scalar .number none) :=
    encloses_succ_iff.2 ⟨_, rfl, encloses_zero_iff.2 ⟨rfl, rfl⟩⟩
  obtain ⟨⟨default, like⟩, -, leaf, made, -, reset, -⟩ :=
    withDefault_outcome few encloses five .null "n"
  have zero : hiddenNumber.defaultValue scope = .number (.int 0) := rfl
  have dropped : overridden.sanitizeScalar scope (.string "five") = .ok none :=
    like.sanitizeScalar (.string "five")
  have back : leaf.reducer.reduce (some .null) (creator.create .null) = five :=
    reset (some .null) (creator.create .null) rfl
  exact ⟨few, encloses, zero, default, dropped, leaf, made, back⟩

end Structure

end StateSlice
