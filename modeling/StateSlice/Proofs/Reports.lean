import StateSlice.Event
import StateSlice.Proofs.MatchedScalars
import StateSlice.Proofs.Pruning
import StateSlice.Proofs.Similarity

/-!
# Reports of rejected scalars

Sanitizing reports each matched scalar that it drops, and nothing else. The rejected scalars are
listed by looking at the values inside a value one after the other, which are in order; that the
list is the list of rejections follows part by part, as both come to what is rejected at a place and
then behind the steps from it. With where a matched scalar comes to stand this accounts for all of
them.
-/
namespace StateSlice

open Json (Value Entries Step)

namespace Node

/-- A scalar node rejects just what does not fit it. -/
theorem rejection_of_validator {node : Node} {validator : Validator}
    (owned : node.ownValidator? = some validator) (value : Value) :
    node.rejection value = if node.fits value then [] else [⟨node, value⟩] := by
  rw [rejection, owned, fits_of_validator owned]

/-- A container node rejects nothing. -/
theorem rejection_of_not_validator {node : Node} (container : node.ownValidator? = none)
    (value : Value) : node.rejection value = [] := by
  rw [rejection, container]

end Node

namespace Event

/-- The event tells that a value was rejected by a scalar node: it has the message of a custom node
or the tag of any other, and the value. -/
inductive Reports : Event → Node → Value → Prop
  /-- By a custom node. -/
  | custom (check : Value → Bool) (message : String) (explicit : Option Value) (value : Value) :
      Reports (.customRejected message value) (.custom check message explicit) value
  /-- By a scalar of a kind. -/
  | scalar (kind : Kind) (explicit : Option Value) (value : Value) :
      Reports (.wrongType kind.tag value) (.scalar kind explicit) value

end Event

/-- The event of a rejection tells of it. -/
theorem Rejection.reports_event {rejection : Rejection} {validator : Validator}
    (owned : rejection.node.ownValidator? = some validator) :
    rejection.event.Reports rejection.node rejection.value := by
  obtain ⟨node, value⟩ := rejection
  cases node with
  | scalar kind explicit => exact .scalar kind explicit value
  | custom check message explicit => exact .custom check message explicit value
  | _ => simp [Node.ownValidator?] at owned

/-- The rejection of a matched scalar. -/
def MatchedScalar.rejection (scalar : MatchedScalar) : Rejection := ⟨scalar.node, scalar.value⟩

namespace Structure

variable (scope : Scope)

/-- The rejection of a value inside another by the scalar node that is declared for it. -/
def rejectedAt? (content : Structure) (inside : List Step × Value) : Option MatchedScalar :=
  (content.scalarAt? scope inside.1).bind fun node =>
    if node.fits inside.2 then none else some ⟨inside.1, node, inside.2⟩

/-- The matched scalars of a value that do not fit their nodes, in order. -/
def rejectedIn (content : Structure) (value : Value) : List MatchedScalar :=
  value.insides.filterMap (content.rejectedAt? scope)

variable {scope} {content : Structure} {value : Value}

/-- A scalar node rejects a value as a whole. -/
theorem rejections_of_validator {validator : Validator}
    (owned : (content.inner scope).ownValidator? = some validator) (value : Value) :
    content.rejections scope value = (content.inner scope).rejection value := by
  cases node : content.inner scope with
  | shape children wildcard explicit => simp [node, Node.ownValidator?] at owned
  | arrayOf element explicit => simp [node, Node.ownValidator?] at owned
  | _ => cases value <;> simp [rejections, node]

/-- What a structure rejects behind a step. -/
def rejectionsBehind (scope : Scope) (content : Structure) (part : Step × Value) : List Rejection :=
  match content.behind? scope part.1 with
  | some child => child.rejections scope part.2
  | none => []

/-- In a value of another form than a container asks for nothing is rejected. -/
theorem rejections_of_misfit (container : (content.inner scope).ownValidator? = none)
    (misfit : (content.inner scope).fits value = false) : content.rejections scope value = [] := by
  rcases content.inner_cases scope with ⟨validator, owned⟩ | ⟨_, _, _, node⟩ | ⟨element, _, node⟩
  · simp [container] at owned
  · cases value with
    | object entries => simp [node, Node.fits, Value.isObject] at misfit
    | _ => simp [rejections, node, Node.rejection, Node.ownValidator?]
  · cases value with
    | array items => simp [node, Node.fits, Value.isArray] at misfit
    | _ => simp [rejections, node, Node.rejection, Node.ownValidator?]

/-- Behind the steps into a value of another form than is declared nothing is rejected. -/
theorem rejectionsBehind_of_misfit (misfit : (content.inner scope).fits value = false) :
    value.parts.flatMap (content.rejectionsBehind scope) = [] := by
  refine List.flatMap_eq_nil_iff.2 fun part member => ?_
  cases behind : content.behind? scope part.1 with
  | none => simp [rejectionsBehind, behind]
  | some child => simp [fits_of_behind? behind member] at misfit

/-- What a structure rejects in a value it rejects there or behind a step. -/
theorem rejections_eq (content : Structure) (value : Value) :
    content.rejections scope value = (content.inner scope).rejection value ++
      value.parts.flatMap (content.rejectionsBehind scope) := by
  rcases content.inner_cases scope with ⟨validator, owned⟩ | ⟨children, wildcard, explicit, node⟩ |
    ⟨element, explicit, node⟩
  · simp [rejections_of_validator owned, rejectionsBehind, behind?_of_validator owned]
  · have container : (content.inner scope).ownValidator? = none := by rw [node]; rfl
    rw [Node.rejection_of_not_validator container, List.nil_append]
    cases value with
    | object entries =>
      rw [rejections, node, Value.parts, List.flatMap_map]
      refine (rejectionsInEntries_eq_flatMap _ _ _ _).trans (List.flatMap_congr fun entry _ => ?_)
      cases named : Shape.lookup children wildcard entry.1 true <;>
        simp [rejectionsAt, rejectionsBehind, behind?, child?, node, named]
    | _ =>
      rw [rejections_of_misfit container (by rw [node]; rfl),
        rejectionsBehind_of_misfit (by rw [node]; rfl)]
  · have container : (content.inner scope).ownValidator? = none := by rw [node]; rfl
    rw [Node.rejection_of_not_validator container, List.nil_append]
    cases value with
    | array items =>
      rw [rejections, node, Value.parts, List.flatMap_map]
      refine (rejectionsInItems_eq_flatMap _ _ _).trans ?_
      conv_lhs => rw [← List.zipIdx_map_fst 0 items, List.flatMap_map]
      refine List.flatMap_congr fun item _ => ?_
      simp only [rejectionsBehind, behind?, node]
    | _ =>
      rw [rejections_of_misfit container (by rw [node]; rfl),
        rejectionsBehind_of_misfit (by rw [node]; rfl)]

/-- The rejection of a value inside is by the node that is declared for it. -/
theorem map_rejectedAt? (inside : List Step × Value) :
    (content.rejectedAt? scope inside).map MatchedScalar.rejection =
      (content.scalarAt? scope inside.1).bind fun node =>
        if node.fits inside.2 then none else some ⟨node, inside.2⟩ := by
  rw [rejectedAt?, Option.map_bind]
  congr 1
  funext node
  cases fits : node.fits inside.2 <;> simp [fits, MatchedScalar.rejection]

/-- A value inside is rejected from one step further away as it is from near. -/
theorem map_rejectedAt?_behind (step : Step) (inside : List Step × Value) :
    (content.rejectedAt? scope (Value.behind step inside)).map MatchedScalar.rejection =
      (content.behind? scope step).bind fun child =>
        (child.rejectedAt? scope inside).map MatchedScalar.rejection := by
  simp only [map_rejectedAt?]
  change (content.scalarAt? scope (step :: inside.1)).bind _ = _
  rw [scalarAt?_cons, Option.bind_assoc]
  rfl

/-- The value itself is rejected by the inner node. -/
theorem toList_rejectedAt?_nil (content : Structure) (value : Value) :
    ((content.rejectedAt? scope ([], value)).map MatchedScalar.rejection).toList =
      (content.inner scope).rejection value := by
  rw [map_rejectedAt?, scalarAt?_nil]
  cases owned : (content.inner scope).ownValidator? with
  | none => simp [Node.rejection_of_not_validator owned]
  | some validator =>
    rw [Node.rejection_of_validator owned]
    cases fits : (content.inner scope).fits value <;> simp [fits]

/-- The rejections are those of the rejected matched scalars, in order. -/
theorem map_rejectedIn (content : Structure) (value : Value) :
    (content.rejectedIn scope value).map MatchedScalar.rejection =
      content.rejections scope value := by
  have behind (part : Step × Value) (member : part ∈ value.parts) :
      (part.2.insides.map (Value.behind part.1)).filterMap
        (fun inside => (content.rejectedAt? scope inside).map MatchedScalar.rejection) =
      content.rejectionsBehind scope part := by
    simp only [List.filterMap_map, Function.comp_def, map_rejectedAt?_behind, rejectionsBehind]
    cases content.behind? scope part.1 with
    | none => simp
    | some child =>
      have smaller := Value.sizeOf_part_lt member
      simpa [rejectedIn, List.map_filterMap] using map_rejectedIn child part.2
  rw [rejectedIn, List.map_filterMap, Value.insides_eq, ← List.singleton_append,
    List.filterMap_append, List.filterMap_flatMap, List.flatMap_congr behind, rejections_eq,
    ← toList_rejectedAt?_nil]
  rfl
termination_by sizeOf value

/-- A value inside is rejected if a scalar node is declared for it that it does not fit. -/
theorem rejectedAt?_eq_some_iff {inside : List Step × Value} {scalar : MatchedScalar} :
    content.rejectedAt? scope inside = some scalar ↔ (scalar.path, scalar.value) = inside ∧
      content.scalarAt? scope scalar.path = some scalar.node ∧
      scalar.node.fits scalar.value = false := by
  obtain ⟨path, node, value⟩ := scalar
  obtain ⟨otherPath, otherValue⟩ := inside
  simp only [rejectedAt?, Option.bind_eq_some_iff, Option.ite_none_left_eq_some, Prod.mk.injEq]
  constructor
  · rintro ⟨_, declared, rejects, same⟩
    obtain ⟨rfl, rfl, rfl⟩ := MatchedScalar.mk.inj (Option.some.inj same)
    exact ⟨⟨rfl, rfl⟩, declared, by simpa using rejects⟩
  · rintro ⟨⟨rfl, rfl⟩, declared, rejects⟩
    exact ⟨node, declared, by simpa using rejects, rfl⟩

/-- What is rejected is matched and does not fit. -/
theorem mem_rejectedIn_iff (ordered : value.Ordered) {scalar : MatchedScalar} :
    scalar ∈ content.rejectedIn scope value ↔
      content.MatchesScalar scope value scalar ∧ scalar.node.fits scalar.value = false := by
  simp only [rejectedIn, List.mem_filterMap, rejectedAt?_eq_some_iff, MatchesScalar, and_assoc,
    ← Value.mem_insides_iff ordered]
  constructor
  · rintro ⟨_, member, rfl, rejects⟩
    exact ⟨member, rejects⟩
  · rintro ⟨member, rejects⟩
    exact ⟨_, member, rfl, rejects⟩

/-- The paths to what is rejected ascend. -/
theorem ascending_rejectedIn (ordered : value.Ordered) :
    (content.rejectedIn scope value).Pairwise (·.path < ·.path) := by
  refine List.Pairwise.filterMap _ ?_ (Value.ascending_insides ordered)
  intro inside other less scalar rejected another also
  obtain ⟨rfl, -⟩ := rejectedAt?_eq_some_iff.1 rejected
  obtain ⟨rfl, -⟩ := rejectedAt?_eq_some_iff.1 also
  exact less

/-- Nothing in a conforming value is rejected. -/
theorem rejections_of_conforms (conforms : Conforms scope content value) :
    content.rejections scope value = [] := by
  induction conforms with
  | scalar owned accepted =>
    rw [rejections_of_validator owned, Node.rejection_of_validator owned,
      Node.fits_of_validator owned, if_pos accepted]
  | @shape content children wildcard explicit entries node declared fits hypothesis =>
    rw [rejections, node]
    refine (rejectionsInEntries_eq_flatMap _ _ _ _).trans (List.flatMap_eq_nil_iff.2 ?_)
    intro entry member
    cases named : Shape.lookup children wildcard entry.1 true with
    | none => simp [rejectionsAt, named]
    | some child => simpa [rejectionsAt, named] using hypothesis entry member child named
  | arrayOf node fits hypothesis =>
    rw [rejections, node]
    exact (rejectionsInItems_eq_flatMap _ _ _).trans (List.flatMap_eq_nil_iff.2 hypothesis)

/-- What sanitizing a value against a structure comes to, the events it makes, and the matched
scalars that it rejects go together. -/
structure Accounts (scope : Scope) (content : Structure) (value kept : Value) (events : List Event)
    (rejected : List MatchedScalar) : Prop where
  /-- The rejected scalars are listed in the order of their places, none twice. -/
  ordered : rejected.Pairwise (·.path < ·.path)
  /-- They are the matched scalars whose node the value there does not fit. -/
  complete : ∀ scalar, scalar ∈ rejected ↔
    content.MatchesScalar scope value scalar ∧ scalar.node.fits scalar.value = false
  /-- The events tell of them, one of each. -/
  reported : List.Forall₂ (fun event scalar => event.Reports scalar.node scalar.value) events
    rejected
  /-- A matched scalar stands unchanged at its place, or it is rejected. -/
  settled : ∀ scalar, content.MatchesScalar scope value scalar →
    (kept.at? (pathAfter scope scalar.path content value) = some scalar.value ↔ scalar ∉ rejected)
  /-- What is stripped, emptied or dropped otherwise makes no event, and nothing in it does. -/
  silent : ∀ path, content.Passes scope value path → ∀ scalar ∈ rejected, ¬ path <+: scalar.path
  /-- A conforming value makes no event. -/
  quiet : Conforms scope content value → events = []

/-- Sanitizing against a container accounts for every scalar that the container matches. -/
theorem accounts_of_container {kept : Value}
    (container : (content.inner scope).ownValidator? = none) (ordered : value.Ordered)
    (sanitized : ∀ inside, content.conform scope value = some inside → inside = kept) :
    Accounts scope content value kept ((content.rejections scope value).map (·.event))
      (content.rejectedIn scope value) where
  ordered := ascending_rejectedIn ordered
  complete scalar := mem_rejectedIn_iff ordered
  reported := by
    rw [← map_rejectedIn, List.map_map, List.forall₂_map_left_iff, List.forall₂_same]
    intro scalar member
    obtain ⟨⟨-, declared⟩, -⟩ := (mem_rejectedIn_iff ordered).1 member
    obtain ⟨validator, owned⟩ := exists_validator_of_scalarAt? declared
    exact Rejection.reports_event owned
  settled scalar matched := by
    obtain ⟨inside, keeps⟩ := exists_conform_of_scalarAt? container matched.2 matched.1
    have stands := at?_pathAfter_iff ordered matched.2 matched.1
    obtain rfl := sanitized inside keeps
    rw [keeps, Option.bind_some] at stands
    rw [stands, mem_rejectedIn_iff ordered]
    simp [matched]
  silent path passes scalar member :=
    passes.not_prefix ((mem_rejectedIn_iff ordered).1 member).1
  quiet conforms := by rw [rejections_of_conforms conforms, List.map_nil]

variable (scope) in
/-- A structure as objects are sanitized against it: a structure that is no shape declares no
name. -/
def asShape (content : Structure) : Structure :=
  if (content.inner scope).tag = .shape then content else .shape []

variable (scope) in
/-- A structure as arrays are sanitized against it: a structure that is no array is the structure of
the elements. -/
def asArray (content : Structure) : Structure :=
  if (content.inner scope).tag = .arrayOf then content else .arrayOf content

/-- Without children and wildcard no entry is kept. -/
theorem conformEntries_nil (entries : Entries) : conformEntries scope [] none entries = [] := by
  rw [conformEntries_eq_filterMap, List.filterMap_eq_nil_iff]
  exact fun _ _ => rfl

/-- Without children and wildcard nothing is rejected. -/
theorem rejectionsInEntries_nil (entries : Entries) :
    rejectionsInEntries scope [] none entries = [] := by
  rw [rejectionsInEntries_eq_flatMap, List.flatMap_eq_nil_iff]
  exact fun _ _ => rfl

/-- A structure that is no shape rejects nothing in an object. -/
theorem shapeRejections_of_not_shape (other : (content.inner scope).tag ≠ .shape) (value : Value) :
    content.shapeRejections scope value = [] := by
  cases value with
  | object entries =>
    rw [shapeRejections]
    split
    · next node => exact absurd (node ▸ rfl) other
    · rfl
  | _ => simp [shapeRejections]

/-- A structure is sanitized against as a shape. -/
theorem exists_inner_asShape (scope : Scope) (content : Structure) : ∃ children wildcard explicit,
    (content.asShape scope).inner scope = .shape children wildcard explicit ∧
    (∀ entries, content.sanitizeShape scope (.object entries) =
      .object (conformEntries scope children wildcard entries)) ∧
    ∀ entries, content.shapeRejections scope (.object entries) =
      rejectionsInEntries scope children wildcard entries := by
  by_cases tagged : (content.inner scope).tag = .shape
  · obtain ⟨children, wildcard, explicit, node⟩ := Node.eq_shape_of_tag tagged
    rw [asShape, if_pos tagged]
    exact ⟨children, wildcard, explicit, node, fun entries => by rw [sanitizeShape, node],
      fun entries => by rw [shapeRejections, node]⟩
  · rw [asShape, if_neg tagged]
    refine ⟨[], none, none, rfl, fun entries => ?_, fun entries => ?_⟩
    · rw [sanitizeShape_of_not_shape tagged, conformEntries_nil]
    · rw [shapeRejections_of_not_shape tagged, rejectionsInEntries_nil]

/-- A structure is sanitized against as an array of its elements. -/
theorem exists_inner_asArray (scope : Scope) (content : Structure) : ∃ explicit,
    (content.asArray scope).inner scope = .arrayOf (content.element scope) explicit := by
  by_cases tagged : (content.inner scope).tag = .arrayOf
  · obtain ⟨element, explicit, node⟩ := Node.eq_arrayOf_of_tag tagged
    rw [asArray, if_pos tagged, element_of_arrayOf node]
    exact ⟨explicit, node⟩
  · rw [asArray, if_neg tagged, element]
    split
    · next node => exact absurd (node ▸ rfl) tagged
    · exact ⟨none, rfl⟩

/-- In an object is rejected what the shape rejects. -/
theorem shapeRejections_eq (content : Structure) (value : Value) :
    content.shapeRejections scope value = (content.asShape scope).rejections scope value := by
  obtain ⟨children, wildcard, explicit, node, -, rejected⟩ := exists_inner_asShape scope content
  cases value with
  | object entries => rw [rejected, rejections, node]
  | _ => simp [shapeRejections, rejections, node, Node.rejection, Node.ownValidator?]

/-- In an array is rejected what the array structure rejects. -/
theorem arrayRejections_eq (content : Structure) (value : Value) :
    content.arrayRejections scope value = (content.asArray scope).rejections scope value := by
  obtain ⟨explicit, node⟩ := exists_inner_asArray scope content
  cases value with
  | array items => rw [arrayRejections, rejections, node]
  | _ => simp [arrayRejections, rejections, node, Node.rejection, Node.ownValidator?]

/-- Sanitizing an object accounts for every scalar that the shape matches. -/
theorem accounts_sanitizeShape (content : Structure) (ordered : value.Ordered) :
    Accounts scope (content.asShape scope) value (content.sanitizeShape scope value)
      ((content.shapeRejections scope value).map (·.event))
      ((content.asShape scope).rejectedIn scope value) := by
  obtain ⟨children, wildcard, explicit, node, sanitized, -⟩ := exists_inner_asShape scope content
  rw [shapeRejections_eq]
  refine accounts_of_container (by rw [node]; rfl) ordered fun inside keeps => ?_
  rw [conform_of_shape node] at keeps
  obtain ⟨entries, object, rfl⟩ := Option.map_eq_some_iff.1 keeps
  rw [eq_object_of_entries? object, sanitized]

/-- Sanitizing an array accounts for every scalar that the array matches. -/
theorem accounts_sanitizeArray (content : Structure) (ordered : value.Ordered) :
    Accounts scope (content.asArray scope) value (.array (content.sanitizeArray scope value))
      ((content.arrayRejections scope value).map (·.event))
      ((content.asArray scope).rejectedIn scope value) := by
  obtain ⟨explicit, node⟩ := exists_inner_asArray scope content
  rw [arrayRejections_eq]
  refine accounts_of_container (by rw [node]; rfl) ordered fun inside keeps => ?_
  obtain ⟨items, rfl⟩ := eq_array_of_conform node keeps
  rw [conform_array node] at keeps
  exact (Option.some.inj keeps).symm

/-- In a conforming value no shape rejects anything. -/
theorem shapeRejections_of_conforms (conforms : Conforms scope content value) :
    content.shapeRejections scope value = [] := by
  by_cases tagged : (content.inner scope).tag = .shape
  · rw [shapeRejections_eq, asShape, if_pos tagged, rejections_of_conforms conforms]
  · exact shapeRejections_of_not_shape tagged value

/-- In a value that conforms to a container no array rejects anything. -/
theorem arrayRejections_of_conforms (conforms : Conforms scope content value)
    (container : (content.inner scope).ownValidator? = none) :
    content.arrayRejections scope value = [] := by
  rcases content.inner_cases scope with ⟨validator, owned⟩ | ⟨_, _, _, node⟩ | ⟨element, _, node⟩
  · simp [container] at owned
  · obtain ⟨entries, rfl⟩ := conforms.exists_object node
    simp [arrayRejections]
  · have tagged : (content.inner scope).tag = .arrayOf := by rw [node]; rfl
    rw [arrayRejections_eq, asArray, if_pos tagged, rejections_of_conforms conforms]

/-- No scalar is lost silently. Sanitizing accounts for every scalar that the structure matches at
any depth of the value, if the structure is read as the shape or as the array that the value is
sanitized against: in the order of names and items there is one event for each scalar that its
validator rejects, with the message or the tag of the node and the value, every other one stands
unchanged at its place, and there is no other event. A value that conforms to the structure as it is
makes no event either, unless an array is sanitized against a scalar node, which then is the
structure of its items. -/
theorem sanitize_accounts (scope : Scope) (content : Structure) {value : Value}
    (ordered : value.Ordered) :
    (∃ rejected, Accounts scope (content.asShape scope) value (content.sanitizeShape scope value)
      ((content.shapeRejections scope value).map (·.event)) rejected) ∧
    (∃ rejected, Accounts scope (content.asArray scope) value
      (.array (content.sanitizeArray scope value))
      ((content.arrayRejections scope value).map (·.event)) rejected) ∧
    (Conforms scope content value → content.shapeRejections scope value = [] ∧
      ((content.inner scope).ownValidator? = none → content.arrayRejections scope value = [])) :=
  ⟨⟨_, accounts_sanitizeShape content ordered⟩, ⟨_, accounts_sanitizeArray content ordered⟩,
    fun conforms => ⟨shapeRejections_of_conforms conforms, arrayRejections_of_conforms conforms⟩⟩

/-- Of a stock with mistakes the text for a count and the number for a size are told of; the note,
the item that is no object and the place that is none go without an event. -/
theorem sanitize_accounts_stock :
    let scope : Scope := fun _ => .endless
    let one : Value := .number (.int 1)
    let value : Value := .object [
      ("items", .array [one, .object [("count", one), ("note", .null)],
        .object [("count", .string "2")]]),
      ("name", .string "nails"), ("place", .bool true), ("size", one)]
    let kept : Value := .object [("items", .array [.object [("count", one)], .object []]),
      ("name", .string "nails"), ("place", .object [])]
    let counted : MatchedScalar :=
      ⟨[.name "items", .index 1, .name "count"], .scalar .number none, one⟩
    value.Ordered ∧ stock.MatchesScalar scope value counted ∧
      kept.at? [.name "items", .index 0, .name "count"] = some one ∧
      ∃ rejected, counted ∉ rejected ∧ Accounts scope stock value kept
        [.wrongType .number (.string "2"), .wrongType .string one] rejected := by
  intro scope one value kept counted
  have ordered : value.Ordered := by
    simp only [value, one, Value.Ordered, Value.OrderedItems, Value.OrderedEntries,
      Entries.Ascending]
    decide
  have matched : stock.MatchesScalar scope value counted := ⟨rfl, rfl⟩
  obtain ⟨⟨rejected, accounts⟩, -, -⟩ := sanitize_accounts scope stock ordered
  have stands : kept.at? [.name "items", .index 0, .name "count"] = some one := rfl
  exact ⟨ordered, matched, stands, rejected, (accounts.settled counted matched).1 stands, accounts⟩

/-- An array may conform to a scalar node as a whole, and yet make an event of each item when it is
sanitized against the node; and a value that a scalar node rejects as a whole makes no event when it
is sanitized as an object. -/
theorem events_of_scalar_node :
    let scope : Scope := fun _ => .endless
    let container : Structure := .custom Value.isContainer "rejected"
    let one : Value := .number (.int 1)
    let text : Value := .string "x"
    Conforms scope container (.array [one]) ∧
    (container.arrayRejections scope (.array [one])).map (·.event) =
      [.customRejected "rejected" one] ∧
    (Structure.scalar .number).MatchesScalar scope text ⟨[], .scalar .number none, text⟩ ∧
    Kind.number.accepts text = false ∧
    (Structure.scalar .number).sanitizeShape scope text = .object [] ∧
    ((Structure.scalar .number).shapeRejections scope text).map (·.event) = [] :=
  ⟨.scalar rfl rfl, rfl, ⟨rfl, rfl⟩, rfl, rfl, rfl⟩

end Structure

end StateSlice
