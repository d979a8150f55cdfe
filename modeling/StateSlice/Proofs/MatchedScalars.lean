import StateSlice.Proofs.Insides
import StateSlice.Proofs.Updates

/-!
# Scalars of a value that a structure matches

Which scalars of a value a structure matches is known from the structure and the value alone: a path
leads to a place of the value and, step by step, to what the structure declares there
(`Structure.MatchesScalar`). After sanitizing, what was at the end of a path is at the end of
another, since items of arrays move up. Along it a container keeps of each part what the structure
behind the step keeps of the part, so a matched scalar is found at the end exactly if it fits.
-/
namespace StateSlice

open Json (Value Entries Step)

namespace Node

/-- Whether a value is of the form that a node asks for: an object, an array, or a scalar that the
validator accepts. -/
def fits : Node → Value → Bool
  | .scalar kind _, value => kind.accepts value
  | .custom check _ _, value => check value
  | .shape _ _ _, value => value.isObject
  | .arrayOf _ _, value => value.isArray
  | .boundary _, _ => false

/-- A value fits a scalar node if the validator accepts it. -/
theorem fits_of_validator {node : Node} {validator : Validator}
    (owned : node.ownValidator? = some validator) (value : Value) :
    node.fits value = validator.accepts value := by
  cases node with
  | scalar kind explicit =>
    obtain rfl := Option.some.inj owned
    rfl
  | custom check message explicit =>
    obtain rfl := Option.some.inj owned
    rfl
  | _ => simp [ownValidator?] at owned

end Node

/-- A scalar of a value at its path, with the node that matches it. -/
structure MatchedScalar where
  /-- The path to the scalar. -/
  path : List Step
  /-- The scalar node. -/
  node : Node
  /-- The scalar. -/
  value : Value

namespace Structure

variable (scope : Scope)

/-- What a structure declares behind a step: a shape for a name, an array for every index. -/
def behind? (content : Structure) : Step → Option Structure
  | .name name => content.child? scope name true
  | .index _ =>
    match content.inner scope with
    | .arrayOf element _ => some element
    | _ => none

/-- What a structure declares at the end of a path. -/
def declaredAt? : List Step → Structure → Option Structure
  | [], content => some content
  | step :: path, content => (content.behind? scope step).bind (declaredAt? path)

/-- The scalar node that a structure declares at the end of a path. -/
def scalarAt? (content : Structure) (path : List Step) : Option Node :=
  (content.declaredAt? scope path).bind fun declared =>
    if (declared.inner scope).ownValidator?.isSome then some (declared.inner scope) else none

/-- A scalar stands in a value where the structure declares its node. -/
def MatchesScalar (content : Structure) (value : Value) (scalar : MatchedScalar) : Prop :=
  value.at? scalar.path = some scalar.value ∧ content.scalarAt? scope scalar.path = some scalar.node

/-- At the end of a path nothing is declared, or a container of which the value there has not the
form. -/
def Passes (content : Structure) (value : Value) (path : List Step) : Prop :=
  content.declaredAt? scope path = none ∨
    ∃ declared inside, content.declaredAt? scope path = some declared ∧
      value.at? path = some inside ∧ (declared.inner scope).ownValidator? = none ∧
      (declared.inner scope).fits inside = false

/-- The step to what was behind a step, after the items before it are gone that do not fit. -/
def stepAfter (content : Structure) : Step → Value → Step
  | .index index, .array items =>
    .index ((items.take index).countP ((content.element scope).inner scope).fits)
  | step, _ => step

/-- The path to what was at the end of a path, after sanitizing. -/
def pathAfter : List Step → Structure → Value → List Step
  | [], _, _ => []
  | step :: path, content, value =>
    content.stepAfter scope step value ::
      match content.behind? scope step, value.part? step with
      | some child, some part => pathAfter path child part
      | _, _ => path

variable {scope} {content : Structure} {value : Value}

/-- A structure declares a scalar node at the empty path if it is a scalar. -/
theorem scalarAt?_nil (content : Structure) : content.scalarAt? scope [] =
    if (content.inner scope).ownValidator?.isSome then some (content.inner scope) else none := rfl

/-- The scalar node behind a step is declared by what is declared behind the step. -/
theorem scalarAt?_cons (step : Step) (path : List Step) :
    content.scalarAt? scope (step :: path) =
      (content.behind? scope step).bind fun child => child.scalarAt? scope path := by
  rw [scalarAt?, declaredAt?, Option.bind_assoc]
  rfl

/-- The scalar node behind a path is declared by what is declared at the end of the path. -/
theorem scalarAt?_append (front back : List Step) :
    content.scalarAt? scope (front ++ back) =
      (content.declaredAt? scope front).bind fun declared => declared.scalarAt? scope back := by
  induction front generalizing content with
  | nil => rfl
  | cons step front hypothesis =>
    rw [List.cons_append, scalarAt?_cons, declaredAt?, Option.bind_assoc]
    exact congrArg _ (funext fun child => hypothesis)

/-- A value is kept exactly if it fits the inner node. -/
theorem isSome_conform (content : Structure) (value : Value) :
    (content.conform scope value).isSome = (content.inner scope).fits value := by
  rcases content.inner_cases scope with ⟨validator, owned⟩ | ⟨_, _, _, node⟩ | ⟨element, _, node⟩
  · rw [conform_of_validator owned, Node.fits_of_validator owned]
    cases validator.accepts value <;> rfl
  · rw [conform_of_shape node, node]
    cases value <;> rfl
  · rw [node]
    cases value <;> simp [conform, node, Node.fits, Value.isArray, Node.keep?, Node.ownValidator?]

/-- A scalar declares nothing behind a step. -/
theorem behind?_of_validator {validator : Validator}
    (owned : (content.inner scope).ownValidator? = some validator) (step : Step) :
    content.behind? scope step = none := by
  cases node : content.inner scope <;> simp [node, Node.ownValidator?] at owned <;>
    cases step <;> simp [behind?, child?, node]

/-- A container has the form that is declared if something is declared behind a step to a part of
it. -/
theorem fits_of_behind? {part : Step × Value} {child : Structure}
    (declared : content.behind? scope part.1 = some child) (member : part ∈ value.parts) :
    (content.inner scope).fits value = true := by
  obtain ⟨step, inside⟩ := part
  cases node : content.inner scope with
  | shape children wildcard explicit =>
    cases step with
    | name name =>
      cases value <;> simp [Value.parts] at member
      rfl
    | index index => simp [behind?, node] at declared
  | arrayOf element explicit =>
    cases step with
    | name name => simp [behind?, child?, node] at declared
    | index index =>
      cases value <;> simp [Value.parts] at member
      rfl
  | _ => cases step <;> simp [behind?, child?, node] at declared

/-- An item that is kept is found behind the items before it that are kept. -/
theorem getElem?_filterMap_countP {α β : Type} {f : α → Option β} {items : List α} {index : Nat}
    {item : α} {kept : β} (found : items[index]? = some item) (keeps : f item = some kept) :
    (items.filterMap f)[(items.take index).countP fun item => (f item).isSome]? = some kept := by
  obtain ⟨bound, rfl⟩ := List.getElem?_eq_some_iff.1 found
  have split : items.filterMap f = (items.take index).filterMap f ++
      (kept :: (items.drop (index + 1)).filterMap f) := by
    rw [← List.filterMap_cons_some keeps, ← List.filterMap_append, ← List.drop_eq_getElem_cons,
      List.take_append_drop]
  rw [split, ← List.length_filterMap_eq_countP, List.getElem?_append_right (Nat.le_refl _),
    Nat.sub_self]
  rfl

/-- A step with a structure behind it, to a part of a kept value, is to a name that a shape declares
or to an item of an array. -/
theorem step_cases {step : Step} {child : Structure} {part kept : Value}
    (declared : content.behind? scope step = some child) (found : value.part? step = some part)
    (whole : content.conform scope value = some kept) :
    (∃ name entries children wildcard, step = .name name ∧ value = .object entries ∧
      Shape.lookup children wildcard name true = some child ∧
      Entries.get? name entries = some part ∧
      kept = .object (conformEntries scope children wildcard entries)) ∨
    ∃ index items, step = .index index ∧ value = .array items ∧ content.element scope = child ∧
      items[index]? = some part ∧ kept = .array (items.filterMap (child.conform scope)) := by
  cases node : content.inner scope with
  | shape children wildcard explicit =>
    cases step with
    | name name =>
      left
      rw [conform_of_shape node] at whole
      obtain ⟨entries, object, rfl⟩ := Option.map_eq_some_iff.1 whole
      obtain rfl := eq_object_of_entries? object
      exact ⟨name, entries, children, wildcard, rfl, rfl,
        by simpa [behind?, child?, node] using declared, found, rfl⟩
    | index index => simp [behind?, node] at declared
  | arrayOf element explicit =>
    cases step with
    | name name => simp [behind?, child?, node] at declared
    | index index =>
      right
      obtain rfl : element = child := by simpa [behind?, node] using declared
      obtain ⟨items, rfl⟩ := eq_array_of_conform node whole
      rw [conform_array node, conformItems_eq_filterMap] at whole
      exact ⟨index, items, rfl, rfl, element_of_arrayOf node, found, (Option.some.inj whole).symm⟩
  | _ => cases step <;> simp [behind?, child?, node] at declared

/-- What a container keeps of a part is found in what it keeps of the whole. -/
theorem part?_stepAfter (ordered : value.Ordered) {step : Step} {child : Structure}
    {part inside kept : Value} (declared : content.behind? scope step = some child)
    (found : value.part? step = some part) (keeps : child.conform scope part = some inside)
    (whole : content.conform scope value = some kept) :
    kept.part? (content.stepAfter scope step value) = some inside := by
  rcases step_cases declared found whole with
    ⟨name, entries, children, wildcard, rfl, rfl, named, read, rfl⟩ |
    ⟨index, items, rfl, rfl, element, listed, rfl⟩
  · rw [Value.Ordered] at ordered
    change Entries.get? name _ = _
    rw [get?_conformEntries ordered.1, read, Option.bind_some, conformAt, named, Option.bind_some,
      keeps]
    rfl
  · have fits : (child.inner scope).fits = fun item => (child.conform scope item).isSome :=
      funext fun item => (isSome_conform child item).symm
    rw [stepAfter, element, fits]
    exact getElem?_filterMap_countP listed keeps

/-- A part that a scalar node rejects is not found in what is kept of the whole. -/
theorem part?_stepAfter_ne (ordered : value.Ordered) {step : Step} {child : Structure}
    {validator : Validator} {part kept : Value} (declared : content.behind? scope step = some child)
    (owned : (child.inner scope).ownValidator? = some validator)
    (found : value.part? step = some part) (drops : child.conform scope part = none)
    (whole : content.conform scope value = some kept) :
    kept.part? (content.stepAfter scope step value) ≠ some part := by
  rcases step_cases declared found whole with
    ⟨name, entries, children, wildcard, rfl, rfl, named, read, rfl⟩ |
    ⟨index, items, rfl, rfl, element, listed, rfl⟩
  · rw [Value.Ordered] at ordered
    change Entries.get? name _ ≠ _
    rw [get?_conformEntries ordered.1, read, Option.bind_some, conformAt, named, Option.bind_some,
      drops, Node.empty?_of_validator owned]
    simp
  · intro there
    obtain ⟨item, -, keeps⟩ := List.mem_filterMap.1 (List.mem_of_getElem? there)
    -- What is kept conforms, and would be kept again.
    have again := conform_of_conforms (conforms_of_conform keeps)
    simp [drops] at again

/-- A container in which a scalar is matched has the form that is declared. -/
theorem exists_conform_of_scalarAt? {path : List Step} {node : Node} {inside : Value}
    (container : (content.inner scope).ownValidator? = none)
    (declared : content.scalarAt? scope path = some node)
    (found : value.at? path = some inside) : ∃ kept, content.conform scope value = some kept := by
  cases path with
  | nil => simp [scalarAt?_nil, container] at declared
  | cons step path =>
    rw [scalarAt?_cons] at declared
    obtain ⟨child, behind, -⟩ := Option.bind_eq_some_iff.1 declared
    obtain ⟨part, leads, -⟩ := Option.bind_eq_some_iff.1 found
    rw [← Option.isSome_iff_exists, isSome_conform]
    exact fits_of_behind? behind (Value.mem_parts_of_part? leads)

/-- A scalar node declares itself and nothing behind it. -/
theorem scalarAt?_of_validator {validator : Validator} {path : List Step} {node : Node}
    (owned : (content.inner scope).ownValidator? = some validator)
    (declared : content.scalarAt? scope path = some node) :
    path = [] ∧ node = content.inner scope := by
  cases path with
  | nil =>
    have own : content.inner scope = node := by simpa [scalarAt?_nil, owned] using declared
    exact ⟨rfl, own.symm⟩
  | cons step path => simp [scalarAt?_cons, behind?_of_validator owned] at declared

/-- What is declared as a scalar has a validator. -/
theorem exists_validator_of_scalarAt? {path : List Step} {node : Node}
    (declared : content.scalarAt? scope path = some node) :
    ∃ validator, node.ownValidator? = some validator := by
  obtain ⟨there, -, scalar⟩ := Option.bind_eq_some_iff.1 declared
  obtain ⟨owned, same⟩ := Option.ite_none_right_eq_some.1 scalar
  obtain rfl := Option.some.inj same
  exact Option.isSome_iff_exists.1 owned

/-- A matched scalar is found where it comes to stand exactly if it fits. -/
theorem at?_pathAfter_iff {path : List Step} {node : Node} {inside : Value}
    (ordered : value.Ordered) (declared : content.scalarAt? scope path = some node)
    (found : value.at? path = some inside) :
    (content.conform scope value).bind (Value.at? (pathAfter scope path content value)) =
      some inside ↔ node.fits inside = true := by
  induction path generalizing content value with
  | nil =>
    cases owned : (content.inner scope).ownValidator? with
    | none => simp [scalarAt?_nil, owned] at declared
    | some validator =>
      obtain ⟨-, rfl⟩ := scalarAt?_of_validator owned declared
      obtain rfl : value = inside := Option.some.inj found
      rw [conform_of_validator owned, Node.fits_of_validator owned]
      cases validator.accepts value with
      | true => exact iff_of_true rfl rfl
      | false => exact iff_of_false (by simp) (by simp)
  | cons step path hypothesis =>
    rw [scalarAt?_cons] at declared
    obtain ⟨child, behind, declared⟩ := Option.bind_eq_some_iff.1 declared
    obtain ⟨part, leads, found⟩ := Option.bind_eq_some_iff.1 found
    have partOrdered : part.Ordered :=
      Value.ordered_of_mem_parts ordered (Value.mem_parts_of_part? leads)
    have inner := hypothesis partOrdered declared found
    have formed := fits_of_behind? behind (Value.mem_parts_of_part? leads)
    rw [← isSome_conform] at formed
    obtain ⟨kept, whole⟩ := Option.isSome_iff_exists.1 formed
    have followed : pathAfter scope (step :: path) content value =
        content.stepAfter scope step value :: pathAfter scope path child part := by
      simp [pathAfter, behind, leads]
    rw [whole, Option.bind_some, followed, Value.at?]
    cases keeps : child.conform scope part with
    | some left =>
      rw [part?_stepAfter ordered behind leads keeps whole]
      rwa [keeps] at inner
    | none =>
      -- Only a scalar can be dropped here, and then the path ends with it.
      cases owned : (child.inner scope).ownValidator? with
      | none =>
        obtain ⟨left, some⟩ := exists_conform_of_scalarAt? owned declared found
        simp [keeps] at some
      | some validator =>
        obtain ⟨rfl, rfl⟩ := scalarAt?_of_validator owned declared
        obtain rfl : part = inside := Option.some.inj found
        have gone := part?_stepAfter_ne ordered behind owned leads keeps whole
        rw [← inner, keeps, pathAfter, funext Value.at?_nil, Option.bind_fun_some]
        exact iff_of_false gone (by simp)

/-- Nothing is matched behind a place at which nothing is declared or a container is not formed. -/
theorem Passes.not_prefix {path : List Step} {scalar : MatchedScalar}
    (passes : content.Passes scope value path)
    (matched : content.MatchesScalar scope value scalar) : ¬ path <+: scalar.path := by
  rintro ⟨rest, joined⟩
  obtain ⟨found, named⟩ := matched
  rw [← joined, Value.at?_append] at found
  rw [← joined, scalarAt?_append] at named
  obtain ⟨declared, there, scalar⟩ := Option.bind_eq_some_iff.1 named
  obtain ⟨inside, leads, further⟩ := Option.bind_eq_some_iff.1 found
  rcases passes with nothing | ⟨other, part, also, same, container, misfit⟩
  · simp [there] at nothing
  · obtain rfl : declared = other := Option.some.inj (there.symm.trans also)
    obtain rfl : inside = part := Option.some.inj (leads.symm.trans same)
    obtain ⟨kept, keeps⟩ := exists_conform_of_scalarAt? container scalar further
    rw [← isSome_conform, keeps] at misfit
    exact nomatch misfit

end Structure

end StateSlice
