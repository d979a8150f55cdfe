import Mathlib.Data.List.Forall2
import StateSlice.Proofs.Conformance
import StateSlice.Structure.Walk

/-!
# Pruned values

Sanitizing takes away and adds nothing. What it keeps of a value is `PrunedFrom` the value: the
relation speaks of values alone, and knows no structure. The one thing that was not there before is
the empty container that stands in for a value of another kind, and it stands under a name or is the
whole result, but is never an item of an array. So every place of what is kept is a place of the
value, in the same order, and a scalar that is kept stands where it stood.
-/
namespace StateSlice

open Json (Value Entries)

/-- Some of the items of a list, in order, each with what it was taken to, are related to the list
if what an item is taken to is related to the item. -/
theorem sublistForall₂_filterMap {α β : Type} {R : β → α → Prop} {f : α → Option β} {items : List α}
    (each : ∀ item ∈ items, ∀ kept, f item = some kept → R kept item) :
    List.SublistForall₂ R (items.filterMap f) items := by
  induction items with
  | nil => exact .nil
  | cons item items hypothesis =>
    have later := hypothesis fun other member => each other (List.mem_cons_of_mem _ member)
    cases found : f item with
    | none =>
      rw [List.filterMap_cons_none found]
      exact .cons_right later
    | some kept =>
      rw [List.filterMap_cons_some found]
      exact .cons (each item List.mem_cons_self kept found) later

/-- Lists of which some items, in order, are related are put together from lists of that kind if the
parts that related items are taken to are such lists. -/
theorem sublistForall₂_flatMap {α β γ δ : Type} {R : α → β → Prop} {S : γ → δ → Prop}
    {f : α → List γ} {g : β → List δ} {lefts : List α} {rights : List β}
    (each : List.SublistForall₂ R lefts rights)
    (parts : ∀ left, ∀ right ∈ rights, R left right → List.SublistForall₂ S (f left) (g right)) :
    List.SublistForall₂ S (lefts.flatMap f) (rights.flatMap g) := by
  simp only [List.sublistForall₂_iff] at parts ⊢
  induction each with
  | nil => exact ⟨[], .nil, List.nil_sublist _⟩
  | @cons left right lefts rights related _ hypothesis =>
    obtain ⟨first, own, within⟩ := parts left right List.mem_cons_self related
    obtain ⟨rest, others, later⟩ := hypothesis fun left other member =>
      parts left other (List.mem_cons_of_mem _ member)
    exact ⟨first ++ rest, List.rel_append own others, within.append later⟩
  | @cons_right right lefts rights _ hypothesis =>
    obtain ⟨rest, others, later⟩ := hypothesis fun left other member =>
      parts left other (List.mem_cons_of_mem _ member)
    exact ⟨rest, others, later.trans (List.sublist_append_right _ _)⟩

namespace Json.Value

/-- An empty container stands in for a value that is no container of its kind. -/
inductive EmptiedFrom : Value → Value → Prop
  /-- The empty object, for a value that is no object. -/
  | object {value : Value} : value.isObject = false → EmptiedFrom (.object []) value
  /-- The empty array, for a value that is no array. -/
  | array {value : Value} : value.isArray = false → EmptiedFrom (.array []) value

mutual
/-- A value is left of another after parts of it were taken away at any depth. -/
inductive PrunedFrom : Value → Value → Prop
  /-- Nothing was taken away. -/
  | same (value : Value) : PrunedFrom value value
  /-- Some entries of an object are left, in order. -/
  | object {kept entries : Entries} : List.SublistForall₂ EntryPrunedFrom kept entries →
      PrunedFrom (.object kept) (.object entries)
  /-- Some items of an array are left, in order, each pruned in its turn. -/
  | array {kept items : List Value} : List.SublistForall₂ PrunedFrom kept items →
      PrunedFrom (.array kept) (.array items)

/-- An entry is left of another of the same name. -/
inductive EntryPrunedFrom : String × Value → String × Value → Prop
  /-- The value of the entry is pruned. -/
  | pruned {name : String} {kept value : Value} : PrunedFrom kept value →
      EntryPrunedFrom (name, kept) (name, value)
  /-- The value of the entry gave way to an empty container. -/
  | emptied {name : String} {kept value : Value} : EmptiedFrom kept value →
      EntryPrunedFrom (name, kept) (name, value)
end

/-- A value is left of another, or is an empty container in its place. -/
def FittedFrom (kept value : Value) : Prop := kept.PrunedFrom value ∨ kept.EmptiedFrom value

/-- What is left of the value of an entry is left of the entry, under its name. -/
theorem FittedFrom.entry {kept value : Value} (fitted : kept.FittedFrom value) (name : String) :
    EntryPrunedFrom (name, kept) (name, value) :=
  fitted.elim .pruned .emptied

/-- Whether the value has values inside. -/
def isContainer (value : Value) : Bool := value.isObject || value.isArray

mutual
/-- The values in a value, itself first, each with the steps to it behind a path. -/
def contentsBehind (path : List Place) : Value → List (List Place × Value)
  | .array items => (path, .array items) :: contentsOfItems (path ++ [.element]) items
  | .object entries => (path, .object entries) :: contentsOfEntries path entries
  | value => [(path, value)]

/-- The values in the items of an array. -/
def contentsOfItems (path : List Place) : List Value → List (List Place × Value)
  | [] => []
  | item :: items => item.contentsBehind path ++ contentsOfItems path items

/-- The values in the entries of an object. -/
def contentsOfEntries (path : List Place) : List (String × Value) → List (List Place × Value)
  | [] => []
  | (name, value) :: entries =>
    value.contentsBehind (path ++ [.child name]) ++ contentsOfEntries path entries
end

/-- The values in the items are those in each item. -/
theorem contentsOfItems_eq_flatMap (path : List Place) (items : List Value) :
    contentsOfItems path items = items.flatMap (contentsBehind path) := by
  induction items with
  | nil => simp [contentsOfItems]
  | cons item items hypothesis => rw [contentsOfItems, hypothesis, List.flatMap_cons]

/-- The values in the entries are those in the value of each entry. -/
theorem contentsOfEntries_eq_flatMap (path : List Place) (entries : Entries) :
    contentsOfEntries path entries =
      entries.flatMap fun entry => entry.2.contentsBehind (path ++ [.child entry.1]) := by
  induction entries with
  | nil => simp [contentsOfEntries]
  | cons entry entries hypothesis => rw [contentsOfEntries, hypothesis, List.flatMap_cons]

/-- The values in a value, itself first, in order, each with the steps to it. -/
def contents (value : Value) : List (List Place × Value) := value.contentsBehind []

/-- The steps to the values in a value, in order; an array has a step for each of its items, and
these steps are the same. -/
def places (value : Value) : List (List Place) := value.contents.map (·.1)

/-- The scalars in a value, in order, each with the steps to it. -/
def scalars (value : Value) : List (List Place × Value) :=
  value.contents.filter fun inside => !inside.2.isContainer

/-- The first value stands at the place of the second, and is the second unless it is a
container. -/
def StandsFor (kept value : List Place × Value) : Prop :=
  kept.1 = value.1 ∧ (kept.2.isContainer = false → kept.2 = value.2)

/-- Every value stands for itself. -/
theorem sublistForall₂_standsFor_self (contents : List (List Place × Value)) :
    List.SublistForall₂ StandsFor contents contents :=
  List.sublistForall₂_iff.2 ⟨contents, List.forall₂_same.2 fun _ _ => ⟨rfl, fun _ => rfl⟩,
    List.Sublist.refl _⟩

/-- A value is among the values in it, before all others. -/
theorem exists_contentsBehind_eq_cons (path : List Place) (value : Value) :
    ∃ rest, value.contentsBehind path = (path, value) :: rest := by
  cases value <;> simp [contentsBehind]

/-- An empty container stands for the value that it was put in place of. -/
theorem EmptiedFrom.contents {kept value : Value} (emptied : kept.EmptiedFrom value)
    (path : List Place) :
    List.SublistForall₂ StandsFor (kept.contentsBehind path) (value.contentsBehind path) := by
  obtain ⟨rest, whole⟩ := exists_contentsBehind_eq_cons path value
  rw [whole]
  cases emptied with
  | object other =>
    rw [contentsBehind, contentsOfEntries]
    exact .cons ⟨rfl, by simp [isContainer, isObject]⟩ .nil
  | array other =>
    rw [contentsBehind, contentsOfItems]
    exact .cons ⟨rfl, by simp [isContainer, isArray]⟩ .nil

/-- The values in what is left of a value stand for some of the values in it, in order. -/
theorem PrunedFrom.contents {kept value : Value} (pruned : kept.PrunedFrom value)
    (path : List Place) :
    List.SublistForall₂ StandsFor (kept.contentsBehind path) (value.contentsBehind path) := by
  cases pruned with
  | same => exact sublistForall₂_standsFor_self _
  | @object kept entries each =>
    have inside := sublistForall₂_flatMap (S := StandsFor)
      (f := fun entry => entry.2.contentsBehind (path ++ [.child entry.1]))
      (g := fun entry => entry.2.contentsBehind (path ++ [.child entry.1])) each ?_
    · rw [contentsBehind, contentsBehind, contentsOfEntries_eq_flatMap,
        contentsOfEntries_eq_flatMap]
      exact .cons ⟨rfl, by simp [isContainer, isObject]⟩ inside
    · intro left right member related
      cases related with
      | pruned pruned => exact pruned.contents _
      | emptied emptied => exact emptied.contents _
  | @array kept items each =>
    have inside := sublistForall₂_flatMap (S := StandsFor)
      (f := contentsBehind (path ++ [.element])) (g := contentsBehind (path ++ [.element])) each
      fun left right member related => related.contents _
    rw [contentsBehind, contentsBehind, contentsOfItems_eq_flatMap, contentsOfItems_eq_flatMap]
    exact .cons ⟨rfl, by simp [isContainer, isArray]⟩ inside
termination_by sizeOf value
decreasing_by
  · exact sizeOf_entry_lt member
  · exact sizeOf_item_lt member

/-- The places of what is left of a value are places of the value, in order, and the scalars that
are left stand where they stood. -/
theorem FittedFrom.places_scalars {kept value : Value} (fitted : kept.FittedFrom value) :
    kept.places.Sublist value.places ∧ kept.scalars.Sublist value.scalars := by
  have each : List.SublistForall₂ StandsFor kept.contents value.contents := by
    rcases fitted with pruned | emptied
    · exact pruned.contents []
    · exact emptied.contents []
  rw [places, places, scalars, scalars]
  generalize kept.contents = lefts at each ⊢
  generalize value.contents = rights at each ⊢
  induction each with
  | nil => exact ⟨List.nil_sublist _, List.nil_sublist _⟩
  | @cons own other lefts rights stands _ hypothesis =>
    obtain ⟨place, scalar⟩ := stands
    rw [List.map_cons, List.map_cons, place]
    refine ⟨hypothesis.1.cons_cons _, ?_⟩
    by_cases container : own.2.isContainer = true
    · rw [List.filter_cons_of_neg (by simpa using container)]
      exact hypothesis.2.trans ((List.sublist_cons_self _ _).filter _)
    · have same : own = other := Prod.ext place (scalar (by simpa using container))
      rw [same, List.filter_cons, List.filter_cons]
      split
      · exact hypothesis.2.cons_cons _
      · exact hypothesis.2
  | cons_right _ hypothesis =>
    exact ⟨hypothesis.1.cons _, hypothesis.2.trans ((List.sublist_cons_self _ _).filter _)⟩

end Json.Value

namespace Structure

variable {scope : Scope}

/-- What a shape keeps under a name is left of the value there, or is an empty container in place of
a value of another kind, if what its structure keeps is left of the value. -/
theorem fittedFrom_of_conformAt {children : List (String × Structure)} {wildcard : Option Structure}
    {name : String} {value kept : Value}
    (pruned : ∀ (child : Structure) (inside : Value), child.conform scope value = some inside →
      inside.PrunedFrom value)
    (found : conformAt scope children wildcard name value = some kept) : kept.FittedFrom value := by
  obtain ⟨child, -, sanitized⟩ := Option.bind_eq_some_iff.1 found
  cases result : child.conform scope value with
  | some inside =>
    obtain rfl : inside = kept := by simpa [result] using sanitized
    exact .inl (pruned child inside result)
  | none =>
    have empty : (child.inner scope).empty? = some kept := by simpa [result] using sanitized
    -- A container structure drops a value only if the value is no container of its kind.
    cases node : child.inner scope with
    | shape children wildcard explicit =>
      obtain rfl : Value.object [] = kept := by simpa [node, Node.empty?] using empty
      have other : value.isObject = false := by
        cases value <;> simp [conform, node, Value.isObject] at result ⊢
      exact .inr (.object other)
    | arrayOf element explicit =>
      obtain rfl : Value.array [] = kept := by simpa [node, Node.empty?] using empty
      have other : value.isArray = false := by
        cases value <;> simp [conform, node, Value.isArray] at result ⊢
      exact .inr (.array other)
    | _ => simp [node, Node.empty?] at empty

/-- If what is kept of the values of entries is left of them, what a shape keeps of the entries is
left of the entries. -/
theorem prunedFrom_conformEntries {children : List (String × Structure)}
    {wildcard : Option Structure} {entries : Entries}
    (pruned : ∀ entry ∈ entries, ∀ (child : Structure) (inside : Value),
      child.conform scope entry.2 = some inside → inside.PrunedFrom entry.2) :
    (Value.object (conformEntries scope children wildcard entries)).PrunedFrom
      (.object entries) := by
  rw [conformEntries_eq_filterMap]
  refine .object (sublistForall₂_filterMap fun entry member kept found => ?_)
  obtain ⟨value, known, rfl⟩ := Option.map_eq_some_iff.1 found
  exact (fittedFrom_of_conformAt (pruned entry member) known).entry entry.1

/-- What is kept of a value is left of it. -/
theorem prunedFrom_of_conform {content : Structure} {value kept : Value}
    (found : content.conform scope value = some kept) : kept.PrunedFrom value := by
  -- The structure may refer to itself, so it is the value that the induction is on.
  rcases content.inner_cases scope with ⟨validator, owned⟩ | ⟨_, _, _, node⟩ | ⟨element, _, node⟩
  · rw [conform_of_validator owned, Option.ite_none_right_eq_some] at found
    obtain rfl := Option.some.inj found.2
    exact .same _
  · rw [conform_of_shape node] at found
    obtain ⟨entries, object, rfl⟩ := Option.map_eq_some_iff.1 found
    have whole := eq_object_of_entries? object
    rw [whole]
    exact prunedFrom_conformEntries fun entry member child inside keeps =>
      prunedFrom_of_conform keeps
  · obtain ⟨items, whole⟩ := eq_array_of_conform node found
    rw [whole, conform_array node, conformItems_eq_filterMap] at found
    obtain rfl := Option.some.inj found
    rw [whole]
    exact .array (sublistForall₂_filterMap fun item member kept keeps =>
      prunedFrom_of_conform keeps)
termination_by sizeOf value
decreasing_by
  · exact whole ▸ Value.sizeOf_entry_lt member
  · exact whole ▸ Value.sizeOf_item_lt member

/-- What sanitizing against a shape comes to is left of the value, or is the empty object in place
of a value that is no object. -/
theorem fittedFrom_sanitizeShape (content : Structure) (value : Value) :
    (content.sanitizeShape scope value).FittedFrom value := by
  cases value with
  | object entries =>
    left
    rw [sanitizeShape]
    split
    · exact prunedFrom_conformEntries fun entry member child inside => prunedFrom_of_conform
    · exact .object .nil
  | _ =>
    right
    rw [sanitizeShape]
    · exact .object rfl
    · simp

/-- What sanitizing an array comes to is left of the value, or is the empty array in place of a
value that is no array. -/
theorem fittedFrom_sanitizeArray (content : Structure) (value : Value) :
    (Value.array (content.sanitizeArray scope value)).FittedFrom value := by
  cases value with
  | array items =>
    left
    rw [sanitizeArray, conformItems_eq_filterMap]
    exact .array (sublistForall₂_filterMap fun item member kept => prunedFrom_of_conform)
  | _ =>
    right
    rw [sanitizeArray]
    · exact .array rfl
    · simp

/-- Sanitizing only prunes. What it comes to is left of the value after parts of it were taken away,
or is an empty container in place of a value of another kind; what a structure keeps of a value, as
of an item of an array, is always left of the value, and only under a name of a shape an empty
container may stand in. So nothing is invented, moved or doubled: the places of what is left are
places of the value, in order, and the scalars that are left stand where they stood. -/
theorem sanitize_prunes (scope : Scope) (content : Structure) (value : Value) :
    (content.sanitizeShape scope value).FittedFrom value ∧
    (Value.array (content.sanitizeArray scope value)).FittedFrom value ∧
    (∀ kept, content.conform scope value = some kept → kept.PrunedFrom value) ∧
    (∀ children wildcard name kept, conformAt scope children wildcard name value = some kept →
      kept.FittedFrom value) ∧
    ∀ kept : Value, kept.FittedFrom value →
      kept.places.Sublist value.places ∧ kept.scalars.Sublist value.scalars :=
  ⟨fittedFrom_sanitizeShape content value, fittedFrom_sanitizeArray content value,
    fun _ => prunedFrom_of_conform,
    fun _ _ _ _ => fittedFrom_of_conformAt fun _ _ => prunedFrom_of_conform,
    fun _ fitted => fitted.places_scalars⟩

/-- A shape with an array of counted items, with a place, and with texts under all other names. -/
def stock : Structure :=
  .shape [(.named "items", .arrayOf (.shape [(.named "count", .scalar .number)])),
    (.named "place", .shape [(.named "row", .scalar .number)]), (.wildcard, .scalar .string)]

/-- Of a stock with mistakes an item that is no object is dropped and a place that is none is
emptied, and what is left of the rest is left in its order. -/
theorem sanitize_prunes_stock :
    let scope : Scope := fun _ => .endless
    let one : Value := .number (.int 1)
    let value : Value := .object [
      ("items", .array [.object [("count", one), ("note", .null)], one,
        .object [("count", .string "2")]]),
      ("name", .string "nails"), ("place", .bool true), ("size", one)]
    let kept : Value := .object [("items", .array [.object [("count", one)], .object []]),
      ("name", .string "nails"), ("place", .object [])]
    stock.conform scope value = some kept ∧ kept.PrunedFrom value ∧
      kept.scalars = [([.child "items", .element, .child "count"], one),
        ([.child "name"], .string "nails")] ∧ kept.scalars.Sublist value.scalars := by
  intro scope one value kept
  have found : stock.conform scope value = some kept := rfl
  obtain ⟨-, -, conforms, -, contents⟩ := sanitize_prunes scope stock value
  have pruned := conforms kept found
  exact ⟨found, pruned, rfl, (contents kept (.inl pruned)).2⟩

end Structure

end StateSlice
