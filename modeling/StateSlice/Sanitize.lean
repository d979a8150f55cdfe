import StateSlice.Validator

/-!
# Sanitizing values

Untrusted values are pruned until they fit a structure; nothing here fails. A scalar is kept as it
is or dropped. An object keeps the entries whose names its shape declares and whose values are kept,
an array the items that are kept. A value that is no container where a container is declared becomes
an empty container directly under a name of a shape, and is dropped elsewhere. A value of the right
form is taken apart by the recursion, so a structure that refers to itself is no obstacle.
-/
namespace StateSlice

open Json (Value Entries)

/-- What became of a scalar that its node did not keep. -/
structure Rejection where
  /-- The node that rejected it. -/
  node : Node
  /-- The rejected value. -/
  value : Value

namespace Node

/-- A value that a scalar node keeps. -/
def keep? (node : Node) (value : Value) : Option Value :=
  match node.ownValidator? with
  | some validator => if validator.accepts value then some value else none
  | none => none

/-- The rejection of a value by a scalar node. -/
def rejection (node : Node) (value : Value) : List Rejection :=
  match node.ownValidator? with
  | some validator => if validator.accepts value then [] else [⟨node, value⟩]
  | none => []

/-- The empty container of a container node. -/
def empty? : Node → Option Value
  | .shape _ _ _ => some (.object [])
  | .arrayOf _ _ => some (.array [])
  | _ => none

end Node

namespace Structure

variable (scope : Scope)

mutual
/-- A value as far as it fits a structure, or nothing if it is dropped. -/
def conform (content : Structure) : Value → Option Value
  | .object entries =>
    match content.inner scope with
    | .shape children wildcard _ => some (.object (conformEntries children wildcard entries))
    | node => node.keep? (.object entries)
  | .array items =>
    match content.inner scope with
    | .arrayOf element _ => some (.array (conformItems element items))
    | node => node.keep? (.array items)
  | value => (content.inner scope).keep? value

/-- The entries that a shape keeps. -/
def conformEntries (children : List (String × Structure)) (wildcard : Option Structure) :
    List (String × Value) → List (String × Value)
  | [] => []
  | (name, value) :: entries =>
    match Shape.lookup children wildcard name true with
    | none => conformEntries children wildcard entries
    | some child =>
      match child.conform value <|> (child.inner scope).empty? with
      | some kept => (name, kept) :: conformEntries children wildcard entries
      | none => conformEntries children wildcard entries

/-- The items that an array keeps. -/
def conformItems (element : Structure) : List Value → List Value
  | [] => []
  | item :: items =>
    match element.conform item with
    | some kept => kept :: conformItems element items
    | none => conformItems element items
end

/-- A value as far as it fits the structure that a shape declares for a name. -/
def conformAt (children : List (String × Structure)) (wildcard : Option Structure) (name : String)
    (value : Value) : Option Value :=
  (Shape.lookup children wildcard name true).bind fun child =>
    child.conform scope value <|> (child.inner scope).empty?

/-- A shape keeps the entries whose values it keeps at their names. -/
theorem conformEntries_eq_filterMap (children : List (String × Structure))
    (wildcard : Option Structure) (entries : List (String × Value)) :
    conformEntries scope children wildcard entries =
      entries.filterMap fun entry =>
        (conformAt scope children wildcard entry.1 entry.2).map (entry.1, ·) := by
  induction entries with
  | nil => simp [conformEntries]
  | cons entry entries hypothesis =>
    obtain ⟨name, value⟩ := entry
    rw [conformEntries, hypothesis, List.filterMap_cons]
    cases declared : Shape.lookup children wildcard name true with
    | none => simp [conformAt, declared]
    | some child =>
      have atName : conformAt scope children wildcard name value =
          (child.conform scope value <|> (child.inner scope).empty?) := by
        simp [conformAt, declared]
      simp only [atName]
      cases (child.conform scope value <|> (child.inner scope).empty?) <;> rfl

/-- An array keeps the items that its element structure keeps. -/
theorem conformItems_eq_filterMap (element : Structure) (items : List Value) :
    conformItems scope element items = items.filterMap (element.conform scope) := by
  induction items with
  | nil => simp [conformItems]
  | cons item items hypothesis =>
    rw [conformItems, hypothesis]
    cases kept : element.conform scope item <;> simp [kept]

mutual
/-- The scalars in a value that are matched by a scalar node and rejected, in the order of the
entries and items. -/
def rejections (content : Structure) : Value → List Rejection
  | .object entries =>
    match content.inner scope with
    | .shape children wildcard _ => rejectionsInEntries children wildcard entries
    | node => node.rejection (.object entries)
  | .array items =>
    match content.inner scope with
    | .arrayOf element _ => rejectionsInItems element items
    | node => node.rejection (.array items)
  | value => (content.inner scope).rejection value

/-- The rejected scalars in the entries of a shape. -/
def rejectionsInEntries (children : List (String × Structure)) (wildcard : Option Structure) :
    List (String × Value) → List Rejection
  | [] => []
  | (name, value) :: entries =>
    match Shape.lookup children wildcard name true with
    | none => rejectionsInEntries children wildcard entries
    | some child => child.rejections value ++ rejectionsInEntries children wildcard entries

/-- The rejected scalars in the items of an array. -/
def rejectionsInItems (element : Structure) : List Value → List Rejection
  | [] => []
  | item :: items => element.rejections item ++ rejectionsInItems element items
end

/-- An object as far as it fits a shape; any other value becomes the empty object, and a structure
that is no shape keeps no entry. -/
def sanitizeShape (content : Structure) : Value → Value
  | .object entries =>
    match content.inner scope with
    | .shape children wildcard _ => .object (conformEntries scope children wildcard entries)
    | _ => .object []
  | _ => .object []

/-- The structure of the elements: what an array declares, or else the structure itself. -/
def element (content : Structure) : Structure :=
  match content.inner scope with
  | .arrayOf element _ => element
  | _ => content

/-- The items of an array that fit the element structure; any other value has none. -/
def sanitizeArray (content : Structure) : Value → List Value
  | .array items => conformItems scope (content.element scope) items
  | _ => []

/-- The rejected scalars of `sanitizeShape`. -/
def shapeRejections (content : Structure) : Value → List Rejection
  | .object entries =>
    match content.inner scope with
    | .shape children wildcard _ => rejectionsInEntries scope children wildcard entries
    | _ => []
  | _ => []

/-- The rejected scalars of `sanitizeArray`. -/
def arrayRejections (content : Structure) : Value → List Rejection
  | .array items => rejectionsInItems scope (content.element scope) items
  | _ => []

/-- A scalar value, kept or dropped; a container has no validator. -/
def sanitizeScalar (content : Structure) (value : Value) : Except UnknownType (Option Value) := do
  let validator ← (content.resolve scope).validator scope
  return if validator.accepts value then some value else none

/-- The rejection of `sanitizeScalar`, by the node of the structure, a boundary included. -/
def scalarRejections (content : Structure) (value : Value) : List Rejection :=
  match (content.resolve scope).validator? scope with
  | some validator =>
    if validator.accepts value then [] else [⟨content.resolve scope, value⟩]
  | none => []

end Structure

end StateSlice
