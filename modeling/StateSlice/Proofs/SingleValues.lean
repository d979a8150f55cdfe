import StateSlice.Proofs.InnerNodes

/-!
# Single values

A single value can be sanitized as a scalar, by the validator of the node of its structure, or as
the only item of an array, by the inner node of its structure. The validator of a boundary is looked
for anew inside the boundary, and so is the default of a boundary: both are found through one
boundary more than the inner node is. Where just that many boundaries enclose a node the two ways
differ, unless the node does what the placeholder does; on all other structures they agree.
-/
namespace StateSlice

open Json (Value)

/-- A node rejects every value, and its default is that of the placeholder. -/
def Node.PassesForPlaceholder (node : Node) : Prop :=
  (∃ validator, node.ownValidator? = some validator ∧ ∀ value, validator.accepts value = false) ∧
    node.ownDefault = .null

namespace Structure

variable {scope : Scope} {content : Structure} {node : Node}

/-- The node by which a single value is sanitized as a scalar: that of the structure, or the inner
node of what it encloses if it is a boundary. -/
def scalarNode (scope : Scope) (content : Structure) : Node :=
  match content.resolve scope with
  | .boundary inner => inner.inner scope
  | node => node

/-- The node for scalars is looked for through one boundary more than the inner node. -/
theorem scalarNode_eq_getD (scope : Scope) (content : Structure) :
    content.scalarNode scope = (content.innerWithin? scope (maxHops + 2)).getD .placeholder := by
  rw [← lookThrough_eq_getD, scalarNode]
  cases content.resolve scope <;> rfl

/-- A node that is enclosed in at most one boundary more than is looked through is the node for
scalars. -/
theorem scalarNode_of_encloses {boundaries : Nat} (few : boundaries ≤ maxHops + 1)
    (encloses : content.Encloses scope boundaries node) : content.scalarNode scope = node := by
  have found : content.innerWithin? scope (maxHops + 2) = some node :=
    innerWithin?_eq_some_iff.2 ⟨boundaries, Nat.lt_succ_of_le few, encloses⟩
  rw [scalarNode_eq_getD, found, Option.getD_some]

/-- Where no node is enclosed in exactly one boundary more than is looked through, the node for
scalars is the inner node. -/
theorem scalarNode_eq_inner (shallow : ∀ node, ¬ content.Encloses scope (maxHops + 1) node) :
    content.scalarNode scope = content.inner scope := by
  have same : content.innerWithin? scope (maxHops + 2) = content.inner? scope := by
    refine Option.ext fun node => ?_
    rw [inner?, innerWithin?_eq_some_iff, innerWithin?_eq_some_iff]
    constructor
    · rintro ⟨boundaries, few, encloses⟩
      rcases Nat.lt_succ_iff_lt_or_eq.1 few with fewer | rfl
      · exact ⟨boundaries, fewer, encloses⟩
      · exact absurd encloses (shallow node)
    · rintro ⟨boundaries, few, encloses⟩
      exact ⟨boundaries, Nat.lt_succ_of_lt few, encloses⟩
  rw [scalarNode_eq_getD, same, inner_eq_getD]

/-- The default of the node of a structure is that of the node for scalars. -/
theorem defaultValue_resolve (scope : Scope) (content : Structure) :
    (content.resolve scope).defaultValue scope = (content.scalarNode scope).ownDefault := by
  rw [scalarNode]
  cases content.resolve scope <;> rfl

/-- The validator of the node of a structure is that of the node for scalars. -/
theorem validator?_resolve (scope : Scope) (content : Structure) :
    (content.resolve scope).validator? scope = (content.scalarNode scope).ownValidator? := by
  rw [scalarNode]
  cases content.resolve scope <;> rfl

/-- A single value is kept as it is or dropped, as the validator of the node for scalars
decides. -/
theorem sanitizeScalar_of_validator {validator : Validator}
    (owned : (content.scalarNode scope).ownValidator? = some validator) (value : Value) :
    content.sanitizeScalar scope value =
      .ok (if validator.accepts value then some value else none) := by
  rw [sanitizeScalar, Node.validator, validator?_resolve, owned]
  rfl

/-- Without a validator a single value is not sanitized as a scalar. -/
theorem sanitizeScalar_of_container (unowned : (content.scalarNode scope).ownValidator? = none)
    (value : Value) : content.sanitizeScalar scope value = .error ⟨content.tag scope⟩ := by
  rw [sanitizeScalar, Node.validator, validator?_resolve, unowned]
  rfl

/-- As the only item of an array a value is kept or dropped, as the validator of the inner node
decides. -/
theorem sanitizeArray_singleton {validator : Validator}
    (owned : (content.inner scope).ownValidator? = some validator) (value : Value) :
    content.sanitizeArray scope (.array [value]) =
      if validator.accepts value then [value] else [] := by
  have element : content.element scope = content := by
    rw [Structure.element]
    cases node : content.inner scope with
    | arrayOf element explicit => simp [node, Node.ownValidator?] at owned
    | _ => rfl
  have single := conform_of_validator owned value
  rw [sanitizeArray, element, conformItems_eq_filterMap]
  by_cases accepted : validator.accepts value = true <;> simp [single, accepted]

/-- Where the inner node is the placeholder, no item of an array is kept. -/
theorem sanitizeArray_of_placeholder (unseen : content.inner scope = .placeholder)
    (value : Value) : content.sanitizeArray scope (.array [value]) = [] := by
  have rejecting : (content.inner scope).ownValidator? = some (.ofCheck fun _ => false) := by
    rw [unseen]
    rfl
  rw [sanitizeArray_singleton rejecting]
  rfl

/-- Where the inner node is the placeholder, the default is null. -/
theorem defaultValue_of_placeholder (unseen : content.inner scope = .placeholder) :
    content.defaultValue scope = .null := by
  rw [defaultValue, unseen]
  rfl

/-- The inner node is a shape or an array. -/
def IsContainer (scope : Scope) (content : Structure) : Prop :=
  (content.inner scope).tag = .shape ∨ (content.inner scope).tag = .arrayOf

/-- The inner node of a structure has no validator exactly if it is a container. -/
theorem isContainer_iff :
    content.IsContainer scope ↔ (content.inner scope).ownValidator? = none := by
  have plain := content.isBoundary_inner scope
  rw [IsContainer]
  cases node : content.inner scope with
  | scalar kind explicit => cases kind <;> simp [Node.tag, Kind.tag, Node.ownValidator?]
  | boundary inner => simp [node, Node.isBoundary] at plain
  | _ => simp [Node.tag, Node.ownValidator?]

/-- A structure treats a single value as a scalar and as the only item of an array alike: if it is a
container the scalar is refused with the tag of the structure, and if it is not the value is kept in
both ways or dropped in both. And the default of the structure is that of its node. -/
structure AgreesOnScalars (scope : Scope) (content : Structure) : Prop where
  /-- A container refuses the scalar. -/
  container : content.IsContainer scope → ∀ value,
    content.sanitizeScalar scope value = .error ⟨content.tag scope⟩
  /-- A value is kept in both ways. -/
  kept : ¬ content.IsContainer scope → ∀ value,
    (content.sanitizeScalar scope value = .ok (some value) ↔
      content.sanitizeArray scope (.array [value]) = [value])
  /-- A value is dropped in both ways. -/
  dropped : ¬ content.IsContainer scope → ∀ value,
    (content.sanitizeScalar scope value = .ok none ↔
      content.sanitizeArray scope (.array [value]) = [])
  /-- The defaults are the same. -/
  default : content.defaultValue scope = (content.resolve scope).defaultValue scope

/-- Where the node for scalars is the inner node, single values agree. -/
theorem agreesOnScalars_of_eq (same : content.scalarNode scope = content.inner scope) :
    content.AgreesOnScalars scope := by
  have default : content.defaultValue scope = (content.resolve scope).defaultValue scope := by
    rw [defaultValue_resolve, same, defaultValue]
  cases owned : (content.inner scope).ownValidator? with
  | none =>
    have container : content.IsContainer scope := isContainer_iff.2 owned
    exact ⟨fun _ => sanitizeScalar_of_container (same ▸ owned), absurd container,
      absurd container, default⟩
  | some validator =>
    have scalar : ¬ content.IsContainer scope := by simp [isContainer_iff, owned]
    have scalarOwned : (content.scalarNode scope).ownValidator? = some validator := same ▸ owned
    have single := sanitizeScalar_of_validator scalarOwned
    have only := sanitizeArray_singleton owned
    refine ⟨fun container => absurd container scalar, fun _ value => ?_, fun _ value => ?_, default⟩
    · rw [single, only]
      by_cases accepted : validator.accepts value = true <;> simp [accepted]
    · rw [single, only]
      by_cases accepted : validator.accepts value = true <;> simp [accepted]

/-- Where the inner node is the placeholder, single values agree exactly if the node for scalars
does what the placeholder does. -/
theorem agreesOnScalars_iff_of_placeholder (unseen : content.inner scope = .placeholder) :
    content.AgreesOnScalars scope ↔ (content.scalarNode scope).PassesForPlaceholder := by
  have scalar : ¬ content.IsContainer scope := by
    simp [IsContainer, unseen, Node.placeholder, Node.tag]
  have empty := sanitizeArray_of_placeholder unseen
  have null := defaultValue_of_placeholder unseen
  constructor
  · intro agrees
    have dropped (value : Value) : content.sanitizeScalar scope value = .ok none :=
      (agrees.dropped scalar value).2 (empty value)
    refine ⟨?_, by rw [← defaultValue_resolve, ← agrees.default, null]⟩
    cases owned : (content.scalarNode scope).ownValidator? with
    | none =>
      have failed := sanitizeScalar_of_container owned .null
      rw [dropped] at failed
      cases failed
    | some validator =>
      refine ⟨validator, rfl, fun value => ?_⟩
      have single := sanitizeScalar_of_validator owned value
      rw [dropped] at single
      simpa using single
  · rintro ⟨⟨validator, owned, rejects⟩, zero⟩
    have dropped (value : Value) : content.sanitizeScalar scope value = .ok none := by
      simp [sanitizeScalar_of_validator owned, rejects]
    refine ⟨fun container => absurd container scalar, fun _ value => ?_, fun _ value => ?_, ?_⟩
    · simp [dropped, empty]
    · simp [dropped, empty]
    · rw [null, defaultValue_resolve, zero]

/-- A structure treats a single value as a scalar and as the only item of an array alike exactly if
no node is enclosed in just one boundary more than is looked through, or if the one that is does
what the placeholder does. -/
theorem agreesOnScalars_iff : content.AgreesOnScalars scope ↔
    ∀ node, content.Encloses scope (maxHops + 1) node → node.PassesForPlaceholder := by
  by_cases deep : ∃ node, content.Encloses scope (maxHops + 1) node
  · obtain ⟨node, encloses⟩ := deep
    have found : content.scalarNode scope = node := scalarNode_of_encloses (Nat.le_refl _) encloses
    have others : (∀ other, content.Encloses scope (maxHops + 1) other →
        other.PassesForPlaceholder) ↔ node.PassesForPlaceholder := by
      constructor
      · intro every
        exact every node encloses
      · intro passes other also
        exact scalarNode_of_encloses (Nat.le_refl _) also ▸ found ▸ passes
    have ⟨below, wraps, _⟩ := encloses
    have unseen : content.inner scope = .placeholder := inner_of_nests ⟨below, wraps⟩
    exact (agreesOnScalars_iff_of_placeholder unseen).trans (found ▸ others.symm)
  · have shallow : ∀ node, ¬ content.Encloses scope (maxHops + 1) node := not_exists.1 deep
    exact iff_of_true (agreesOnScalars_of_eq (scalarNode_eq_inner shallow)) fun node deep =>
      absurd deep (shallow node)

/-- A number in one boundary more than is looked through: as a scalar five is kept, as the only item
of an array it is dropped. -/
theorem agreesOnScalars_iff_nested :
    let content : Structure := .nested (maxHops + 1)
    let scope := Chunk.noLabels
    let five : Value := .number (.int 5)
    content.Encloses scope (maxHops + 1) (.scalar .number none) ∧
      content.sanitizeScalar scope five = .ok (some five) ∧
      content.sanitizeArray scope (.array [five]) = [] ∧
      (content.resolve scope).defaultValue scope = .number (.int 0) ∧
      content.defaultValue scope = .null ∧ ¬ content.AgreesOnScalars scope := by
  intro content scope five
  have wraps := wraps_nested scope (maxHops + 1)
  have encloses : content.Encloses scope (maxHops + 1) (.scalar .number none) :=
    ⟨_, wraps, rfl, rfl⟩
  have found : content.scalarNode scope = .scalar .number none :=
    scalarNode_of_encloses (Nat.le_refl _) encloses
  have unseen : content.inner scope = .placeholder := inner_of_nests ⟨_, wraps⟩
  have number : (content.scalarNode scope).ownValidator? = some (.ofKind .number) := by
    rw [found]
    rfl
  refine ⟨encloses, sanitizeScalar_of_validator number five,
    sanitizeArray_of_placeholder unseen five, ?_, defaultValue_of_placeholder unseen,
    fun agrees => ?_⟩
  · rw [defaultValue_resolve, found]
    rfl
  · obtain ⟨⟨validator, owned, rejects⟩, -⟩ := agreesOnScalars_iff.1 agrees _ encloses
    obtain rfl : .ofKind .number = validator := Option.some.inj owned
    exact Bool.noConfusion (rejects five)

end Structure

end StateSlice
