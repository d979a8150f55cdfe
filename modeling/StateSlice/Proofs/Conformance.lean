import Mathlib.Data.List.Basic
import StateSlice.Proofs.Resolution
import StateSlice.Sanitize

/-!
# Conforming values

A value conforms to a structure if nothing in it would have to be pruned: `Conforms` says so by the
nodes of the structure alone, without the functions that sanitize. Sanitizing comes to a conforming
value, and leaves a conforming value as it is; so doing it twice is doing it once. Structures may
refer to themselves, since it is the value that is taken apart.
-/
namespace StateSlice

open Json (Value Entries)

/-- A value is what a structure declares, at every depth. -/
inductive Conforms (scope : Scope) : Structure → Value → Prop
  /-- A scalar that its validator accepts. -/
  | scalar {content : Structure} {validator : Validator} {value : Value}
      (owned : (content.inner scope).ownValidator? = some validator)
      (accepted : validator.accepts value = true) : Conforms scope content value
  /-- An object each of whose names is declared, as a child or by the wildcard, and has a value that
  conforms to what is declared for it. -/
  | shape {content : Structure} {children : List (String × Structure)} {wildcard : Option Structure}
      {explicit : Option Value} {entries : Entries}
      (node : content.inner scope = .shape children wildcard explicit)
      (declared : ∀ entry ∈ entries, (Shape.lookup children wildcard entry.1 true).isSome = true)
      (fits : ∀ entry ∈ entries, ∀ child,
        Shape.lookup children wildcard entry.1 true = some child → Conforms scope child entry.2) :
      Conforms scope content (.object entries)
  /-- An array whose items conform to the structure of its elements. -/
  | arrayOf {content element : Structure} {explicit : Option Value} {items : List Value}
      (node : content.inner scope = .arrayOf element explicit)
      (fits : ∀ item ∈ items, Conforms scope element item) : Conforms scope content (.array items)

namespace Conforms

variable {scope : Scope} {content : Structure} {children : List (String × Structure)}
  {wildcard : Option Structure} {explicit : Option Value}

/-- An object conforms to a shape exactly if each of its entries has a structure and conforms to
it. -/
theorem object_iff {entries : Entries}
    (node : content.inner scope = .shape children wildcard explicit) :
    Conforms scope content (.object entries) ↔ ∀ entry ∈ entries, ∃ child,
      Shape.lookup children wildcard entry.1 true = some child ∧ Conforms scope child entry.2 := by
  constructor
  · intro conforms entry member
    cases conforms with
    | scalar owned accepted => simp [node, Node.ownValidator?] at owned
    | shape own declared fits =>
      obtain ⟨rfl, rfl, rfl⟩ := Node.shape.inj (node.symm.trans own)
      obtain ⟨child, found⟩ := Option.isSome_iff_exists.1 (declared entry member)
      exact ⟨child, found, fits entry member child found⟩
  · intro every
    refine .shape node (fun entry member => ?_) fun entry member child found => ?_
    · obtain ⟨child, found, -⟩ := every entry member
      exact Option.isSome_of_eq_some found
    · obtain ⟨own, declared, fits⟩ := every entry member
      obtain rfl : own = child := Option.some.inj (declared.symm.trans found)
      exact fits

/-- Only an object conforms to a shape. -/
theorem exists_object {value : Value} (conforms : Conforms scope content value)
    (node : content.inner scope = .shape children wildcard explicit) :
    ∃ entries, value = .object entries := by
  cases conforms with
  | scalar owned accepted => simp [node, Node.ownValidator?] at owned
  | shape own declared fits => exact ⟨_, rfl⟩
  | arrayOf own fits => simp [node] at own

end Conforms

/-- A scalar node has no empty container. -/
theorem Node.empty?_of_validator {node : Node} {validator : Validator}
    (owned : node.ownValidator? = some validator) : node.empty? = none := by
  cases node <;> simp [ownValidator?, empty?] at owned ⊢

namespace Structure

variable {scope : Scope} {content : Structure}

/-- What is kept of a value depends on the inner node alone. -/
theorem conform_congr {other : Structure} (same : content.inner scope = other.inner scope)
    (value : Value) : content.conform scope value = other.conform scope value := by
  cases value <;> simp [conform, same]

/-- A scalar is kept as it is or dropped. -/
theorem conform_of_validator {validator : Validator}
    (owned : (content.inner scope).ownValidator? = some validator) (value : Value) :
    content.conform scope value = if validator.accepts value then some value else none := by
  have keep : (content.inner scope).keep? value =
      if validator.accepts value then some value else none := by rw [Node.keep?, owned]
  rw [← keep]
  cases node : content.inner scope with
  | shape children wildcard explicit => simp [node, Node.ownValidator?] at owned
  | arrayOf element explicit => simp [node, Node.ownValidator?] at owned
  | _ => cases value <;> simp [conform, node]

/-- Where the inner node rejects every value, as the placeholder does, nothing is kept. -/
theorem conform_of_rejecting {message : String} {explicit : Option Value}
    (node : content.inner scope = .custom (fun _ => false) message explicit) (value : Value) :
    content.conform scope value = none := by
  have owned : (content.inner scope).ownValidator? = some (.ofCheck fun _ => false) := by
    rw [node]
    rfl
  rw [conform_of_validator owned]
  rfl

/-- A shape keeps objects only. -/
theorem conform_of_shape {children : List (String × Structure)} {wildcard : Option Structure}
    {explicit : Option Value} (node : content.inner scope = .shape children wildcard explicit)
    (value : Value) :
    content.conform scope value = value.entries?.map fun entries =>
      .object (conformEntries scope children wildcard entries) := by
  cases value <;> simp [conform, node, Value.entries?, Node.keep?, Node.ownValidator?]

/-- Only an object has entries. -/
theorem eq_object_of_entries? {value : Value} {entries : Entries}
    (found : value.entries? = some entries) : value = .object entries := by
  cases value <;> simp [Value.entries?] at found ⊢
  exact found

/-- An array structure keeps arrays. -/
theorem conform_array {element : Structure} {explicit : Option Value}
    (node : content.inner scope = .arrayOf element explicit) (items : List Value) :
    content.conform scope (.array items) = some (.array (conformItems scope element items)) := by
  rw [conform, node]

/-- An array structure keeps nothing but arrays. -/
theorem eq_array_of_conform {element : Structure} {explicit : Option Value} {value kept : Value}
    (node : content.inner scope = .arrayOf element explicit)
    (found : content.conform scope value = some kept) : ∃ items, value = .array items := by
  cases value with
  | array items => exact ⟨items, rfl⟩
  | _ => simp [conform, node, Node.keep?, Node.ownValidator?] at found

/-- The empty container of a container structure conforms to it. -/
theorem conforms_empty {empty : Value} (node : (content.inner scope).empty? = some empty) :
    Conforms scope content empty := by
  cases inner : content.inner scope with
  | shape children wildcard explicit =>
    obtain rfl : .object [] = empty := by simpa [inner, Node.empty?] using node
    exact .shape inner (by simp) (by simp)
  | arrayOf element explicit =>
    obtain rfl : .array [] = empty := by simpa [inner, Node.empty?] using node
    exact .arrayOf inner (by simp)
  | _ => simp [inner, Node.empty?] at node

/-- If what is kept of the values of entries conforms, what a shape keeps of the entries does. -/
theorem conforms_conformEntries {children : List (String × Structure)}
    {wildcard : Option Structure} {explicit : Option Value} {entries : Entries}
    (node : content.inner scope = .shape children wildcard explicit)
    (hypothesis : ∀ entry ∈ entries, ∀ (child : Structure) (kept : Value),
      child.conform scope entry.2 = some kept → Conforms scope child kept) :
    Conforms scope content (.object (conformEntries scope children wildcard entries)) := by
  -- An entry that is kept stands under its declared name, with what its structure kept of its value
  -- or with the empty container of that structure.
  have origin : ∀ entry ∈ conformEntries scope children wildcard entries, ∃ child,
      Shape.lookup children wildcard entry.1 true = some child ∧ Conforms scope child entry.2 := by
    intro entry member
    rw [conformEntries_eq_filterMap] at member
    obtain ⟨source, sourceMember, kept⟩ := List.mem_filterMap.1 member
    obtain ⟨value, found, rfl⟩ := Option.map_eq_some_iff.1 kept
    obtain ⟨child, declared, sanitized⟩ := Option.bind_eq_some_iff.1 found
    refine ⟨child, declared, ?_⟩
    cases result : child.conform scope source.2 with
    | some inside =>
      obtain rfl : inside = value := by simpa [result] using sanitized
      exact hypothesis source sourceMember child inside result
    | none => exact conforms_empty (by simpa [result] using sanitized)
  exact (Conforms.object_iff node).2 origin

/-- What is kept of a value conforms. -/
theorem conforms_of_conform {content : Structure} {value kept : Value}
    (found : content.conform scope value = some kept) : Conforms scope content kept := by
  -- The structure may refer to itself, so it is the value that the induction is on.
  rcases content.inner_cases scope with ⟨validator, owned⟩ | ⟨_, _, _, node⟩ | ⟨element, _, node⟩
  · rw [conform_of_validator owned, Option.ite_none_right_eq_some] at found
    obtain ⟨accepted, same⟩ := found
    obtain rfl := Option.some.inj same
    exact .scalar owned accepted
  · rw [conform_of_shape node] at found
    obtain ⟨entries, object, rfl⟩ := Option.map_eq_some_iff.1 found
    have whole := eq_object_of_entries? object
    exact conforms_conformEntries node fun entry member child inside keeps =>
      conforms_of_conform keeps
  · obtain ⟨items, whole⟩ := eq_array_of_conform node found
    rw [whole, conform_array node, conformItems_eq_filterMap] at found
    obtain rfl := Option.some.inj found
    refine .arrayOf node fun item member => ?_
    obtain ⟨source, sourceMember, keeps⟩ := List.mem_filterMap.1 member
    exact conforms_of_conform keeps
termination_by sizeOf value
decreasing_by
  · exact whole ▸ Value.sizeOf_entry_lt member
  · exact whole ▸ Value.sizeOf_item_lt sourceMember

/-- Items that conform to their structure are all kept. -/
theorem conformItems_eq_self {element : Structure} {items : List Value}
    (kept : ∀ item ∈ items, element.conform scope item = some item) :
    conformItems scope element items = items := by
  rw [conformItems_eq_filterMap]
  simpa using (List.filterMap_eq_map_iff_forall_eq_some (g := id)).2 kept

/-- A conforming value is kept as it is. -/
theorem conform_of_conforms {value : Value} (conforms : Conforms scope content value) :
    content.conform scope value = some value := by
  induction conforms with
  | scalar owned accepted => rw [conform_of_validator owned, if_pos accepted]
  | @shape content children wildcard explicit entries node declared fits hypothesis =>
    have unchanged : conformEntries scope children wildcard entries = entries := by
      rw [conformEntries_eq_filterMap]
      refine ((List.filterMap_eq_map_iff_forall_eq_some (g := id)).2 ?_).trans (List.map_id _)
      intro entry member
      obtain ⟨child, found⟩ := Option.isSome_iff_exists.1 (declared entry member)
      simp [conformAt, found, hypothesis entry member child found]
    rw [conform_of_shape node, Value.entries?, Option.map_some, unchanged]
  | arrayOf node fits hypothesis => rw [conform_array node, conformItems_eq_self hypothesis]

/-- A value conforms exactly if it is kept as it is. -/
theorem conform_eq_self_iff {value : Value} :
    content.conform scope value = some value ↔ Conforms scope content value :=
  ⟨conforms_of_conform, conform_of_conforms⟩

/-- Whether a value conforms depends on the inner node alone. -/
theorem conforms_congr {other : Structure} {value : Value}
    (same : content.inner scope = other.inner scope) :
    Conforms scope content value ↔ Conforms scope other value := by
  rw [← conform_eq_self_iff, ← conform_eq_self_iff, conform_congr same]

/-- A shape takes an object apart and any other value for the empty object. -/
theorem sanitizeShape_of_shape {children : List (String × Structure)}
    {wildcard : Option Structure} {explicit : Option Value}
    (node : content.inner scope = .shape children wildcard explicit) (value : Value) :
    content.sanitizeShape scope value =
      .object (conformEntries scope children wildcard (value.entries?.getD [])) := by
  cases value <;> simp [sanitizeShape, node, Value.entries?, conformEntries]

/-- What sanitizing against a shape comes to conforms to the shape. -/
theorem conforms_sanitizeShape {children : List (String × Structure)} {wildcard : Option Structure}
    {explicit : Option Value} (node : content.inner scope = .shape children wildcard explicit)
    (value : Value) : Conforms scope content (content.sanitizeShape scope value) := by
  rw [sanitizeShape_of_shape node]
  exact conforms_conformEntries node fun entry member child kept => conforms_of_conform

/-- A conforming value is an object that sanitizing against the shape leaves as it is. -/
theorem sanitizeShape_of_conforms {children : List (String × Structure)}
    {wildcard : Option Structure} {explicit : Option Value} {value : Value}
    (node : content.inner scope = .shape children wildcard explicit)
    (conforms : Conforms scope content value) : content.sanitizeShape scope value = value := by
  have kept := conform_of_conforms conforms
  rw [conform_of_shape node] at kept
  obtain ⟨entries, object, same⟩ := Option.map_eq_some_iff.1 kept
  rw [sanitizeShape_of_shape node, object, Option.getD_some, same]

/-- The items that sanitizing an array keeps conform to the structure of the elements. -/
theorem conforms_of_mem_sanitizeArray {value item : Value}
    (member : item ∈ content.sanitizeArray scope value) :
    Conforms scope (content.element scope) item := by
  cases value with
  | array items =>
    rw [sanitizeArray, conformItems_eq_filterMap] at member
    obtain ⟨source, -, keeps⟩ := List.mem_filterMap.1 member
    exact conforms_of_conform keeps
  | _ => simp [sanitizeArray] at member

/-- An array of items that conform to the structure of the elements is sanitized to itself. -/
theorem sanitizeArray_array {items : List Value}
    (conform : ∀ item ∈ items, Conforms scope (content.element scope) item) :
    content.sanitizeArray scope (.array items) = items :=
  conformItems_eq_self fun item member => conform_of_conforms (conform item member)

/-- The structure of the elements of an array structure is the declared one. -/
theorem element_of_arrayOf {element : Structure} {explicit : Option Value}
    (node : content.inner scope = .arrayOf element explicit) : content.element scope = element := by
  rw [Structure.element, node]

/-- A structure that is no shape keeps no entry of any object. -/
theorem sanitizeShape_of_not_shape (other : (content.inner scope).tag ≠ .shape) (value : Value) :
    content.sanitizeShape scope value = .object [] := by
  cases value with
  | object entries =>
    rw [sanitizeShape]
    split
    · next node => exact absurd (node ▸ rfl) other
    · rfl
  | _ => rw [sanitizeShape]; simp

end Structure

/-- Sanitizing is a retraction onto the conforming values: whatever the value, against a shape or an
array it comes to a conforming value, and so does whatever is kept of it at all; a conforming value
stays as it is; and a second time changes nothing, whatever the structure is. -/
theorem Structure.sanitize_retraction (scope : Scope) (content : Structure) (value : Value) :
    ((content.inner scope).tag = .shape →
      Conforms scope content (content.sanitizeShape scope value)) ∧
    ((content.inner scope).tag = .arrayOf →
      Conforms scope content (.array (content.sanitizeArray scope value))) ∧
    (∀ kept, content.conform scope value = some kept → Conforms scope content kept) ∧
    (Conforms scope content value →
      content.conform scope value = some value ∧
      ((content.inner scope).tag = .shape → content.sanitizeShape scope value = value) ∧
      ((content.inner scope).tag = .arrayOf →
        .array (content.sanitizeArray scope value) = value)) ∧
    content.sanitizeShape scope (content.sanitizeShape scope value) =
      content.sanitizeShape scope value ∧
    content.sanitizeArray scope (.array (content.sanitizeArray scope value)) =
      content.sanitizeArray scope value ∧
    ∀ kept, content.conform scope value = some kept →
      content.conform scope kept = some kept := by
  have shapes (tagged : (content.inner scope).tag = .shape) (value : Value) :
      Conforms scope content (content.sanitizeShape scope value) := by
    obtain ⟨children, wildcard, explicit, node⟩ := Node.eq_shape_of_tag tagged
    exact conforms_sanitizeShape node value
  refine ⟨(shapes · value), fun tagged => ?_, fun kept => conforms_of_conform, fun conforms => ?_,
    ?_, ?_, fun kept found => conform_of_conforms (conforms_of_conform found)⟩
  · obtain ⟨element, explicit, node⟩ := Node.eq_arrayOf_of_tag tagged
    exact .arrayOf node fun item member => element_of_arrayOf node ▸
      conforms_of_mem_sanitizeArray member
  · refine ⟨conform_of_conforms conforms, fun tagged => ?_, fun tagged => ?_⟩
    · obtain ⟨children, wildcard, explicit, node⟩ := Node.eq_shape_of_tag tagged
      exact sanitizeShape_of_conforms node conforms
    · obtain ⟨element, explicit, node⟩ := Node.eq_arrayOf_of_tag tagged
      obtain ⟨items, rfl⟩ := eq_array_of_conform node (conform_of_conforms conforms)
      have kept := conform_of_conforms conforms
      rw [conform_array node] at kept
      rw [sanitizeArray, element_of_arrayOf node]
      exact Option.some.inj kept
  · by_cases tagged : (content.inner scope).tag = .shape
    · obtain ⟨children, wildcard, explicit, node⟩ := Node.eq_shape_of_tag tagged
      exact sanitizeShape_of_conforms node (shapes tagged value)
    · rw [sanitizeShape_of_not_shape tagged, sanitizeShape_of_not_shape tagged]
  · exact sanitizeArray_array fun item => conforms_of_mem_sanitizeArray

/-- A scope in which each label stands for a shape with a number and another such shape next to
it. -/
def numberTree : Scope := fun label =>
  .reaches 0 (.shape [("next", .deferred (.named label)), ("value", .scalar .number)] none none)

/-- Of a value that nests deeper than its structure is written, what does not fit is dropped or
emptied at every depth, and the rest conforms. -/
theorem sanitize_retraction_numberTree :
    let content : Structure := .deferred (.named 0)
    let inner : Value := .object [("next", .bool true), ("other", .null), ("value", .string "1")]
    let value : Value := .object [("next", inner), ("value", .number (.int 1))]
    let kept : Value := .object [("next", .object [("next", .object [])]),
      ("value", .number (.int 1))]
    (content.inner numberTree).tag = .shape ∧ content.sanitizeShape numberTree value = kept ∧
      Conforms numberTree content kept ∧ content.conform numberTree kept = some kept := by
  intro content inner value kept
  have shape : (content.inner numberTree).tag = .shape := rfl
  have sanitized : content.sanitizeShape numberTree value = kept := by
    rfl
  have conforms : Conforms numberTree content kept :=
    sanitized ▸ (Structure.sanitize_retraction numberTree content value).1 shape
  have same := ((Structure.sanitize_retraction numberTree content kept).2.2.2.1 conforms).1
  exact ⟨shape, sanitized, conforms, same⟩

end StateSlice
