import StateSlice.Proofs.Combination

/-!
# Values inside a value

Every value inside a value stands at a path of steps, each to the value at a name of an object or to
the item at an index of an array. A path can be followed (`Value.at?`), and all values inside can be
listed with their paths (`Value.insides`): a container before what is in it, entries by their names,
items by their indices. If the names of every object ascend, the two agree, and the paths in the
list ascend, so that no place is listed twice.
-/
namespace StateSlice.Json

/-- A step from a container to a value in it. -/
inductive Step
  /-- To the value at a name of an object. -/
  | name (name : String)
  /-- To the item at an index of an array. -/
  | index (index : Nat)
deriving DecidableEq

/-- Steps from an object are in the order of names, steps from an array in that of indices. -/
instance : LT Step where
  lt
    | .name left, .name right => left < right
    | .index left, .index right => left < right
    | _, _ => False

namespace Value

/-- The values directly in a value, each with the step to it. -/
def parts : Value → List (Step × Value)
  | .array items => items.zipIdx.map fun (item, index) => (.index index, item)
  | .object entries => entries.map fun (name, value) => (.name name, value)
  | _ => []

/-- The value that a step leads to. -/
def part? : Step → Value → Option Value
  | .name name, value => value.get? name
  | .index index, .array items => items[index]?
  | .index _, _ => none

/-- The value at the end of a path. -/
def at? : List Step → Value → Option Value
  | [], value => some value
  | step :: path, value => (value.part? step).bind (at? path)

/-- The empty path leads nowhere else. -/
@[simp]
theorem at?_nil (value : Value) : value.at? [] = some value := rfl

/-- Paths in a row are followed one after the other. -/
theorem at?_append (front back : List Step) (value : Value) :
    value.at? (front ++ back) = (value.at? front).bind (at? back) := by
  induction front generalizing value with
  | nil => rfl
  | cons step front hypothesis =>
    rw [List.cons_append, at?, at?, Option.bind_assoc]
    exact congrArg _ (funext hypothesis)

/-- What a step leads to is listed at the step. -/
theorem mem_parts_of_part? {value : Value} {step : Step} {part : Value}
    (found : value.part? step = some part) : (step, part) ∈ value.parts := by
  cases value with
  | array items =>
    cases step with
    | name name => simp [part?, get?] at found
    | index index => simpa [parts, part?, List.mem_zipIdx_iff_getElem?] using found
  | object entries =>
    cases step with
    | name name =>
      have member : (name, part) ∈ entries := Entries.mem_of_get? found
      simpa [parts] using member
    | index index => simp [part?] at found
  | _ => cases step <;> simp [part?, get?] at found

/-- What is listed in an ordered value at a step is what the step leads to. -/
theorem mem_parts_iff {value : Value} (ordered : value.Ordered) {step : Step} {part : Value} :
    (step, part) ∈ value.parts ↔ value.part? step = some part := by
  refine ⟨fun member => ?_, mem_parts_of_part?⟩
  cases value with
  | array items =>
    cases step with
    | name name => simp [parts] at member
    | index index => simpa [parts, part?, List.mem_zipIdx_iff_getElem?] using member
  | object entries =>
    cases step with
    | name name =>
      rw [Ordered] at ordered
      have listed : (name, part) ∈ entries := by simpa [parts] using member
      exact Entries.get?_of_mem ordered.1 listed
    | index index => simp [parts] at member
  | _ => simp [parts] at member

/-- The steps from an ordered value ascend. -/
theorem ascending_parts {value : Value} (ordered : value.Ordered) :
    value.parts.Pairwise (·.1 < ·.1) := by
  cases value with
  | array items =>
    have indices : items.zipIdx.Pairwise (·.2 < ·.2) := by
      rw [← List.pairwise_map, List.zipIdx_map_snd]
      exact List.pairwise_lt_range'
    rw [parts, List.pairwise_map]
    exact indices
  | object entries =>
    rw [Ordered] at ordered
    rw [parts, List.pairwise_map]
    exact ordered.1
  | _ => exact .nil

/-- A value directly in a value is smaller. -/
theorem sizeOf_part_lt {value : Value} {part : Step × Value} (member : part ∈ value.parts) :
    sizeOf part.2 < sizeOf value := by
  cases value with
  | array items =>
    obtain ⟨⟨item, index⟩, listed, rfl⟩ := List.mem_map.1 member
    exact sizeOf_item_lt (List.fst_mem_of_mem_zipIdx listed)
  | object entries =>
    obtain ⟨entry, listed, rfl⟩ := List.mem_map.1 member
    exact sizeOf_entry_lt listed
  | _ => simp [parts] at member

/-- A value directly in an ordered value is ordered. -/
theorem ordered_of_mem_parts {value : Value} (ordered : value.Ordered) {part : Step × Value}
    (member : part ∈ value.parts) : part.2.Ordered := by
  cases value with
  | array items =>
    obtain ⟨⟨item, index⟩, listed, rfl⟩ := List.mem_map.1 member
    rw [Ordered] at ordered
    exact ordered_of_mem_items ordered (List.fst_mem_of_mem_zipIdx listed)
  | object entries =>
    obtain ⟨entry, listed, rfl⟩ := List.mem_map.1 member
    rw [Ordered] at ordered
    exact ordered_of_mem_entries ordered.2 listed
  | _ => simp [parts] at member

/-- A value with the path to it, seen from one step further away. -/
def behind (step : Step) (inside : List Step × Value) : List Step × Value :=
  (step :: inside.1, inside.2)

/-- The values in a value, itself first, each with the path to it. -/
def insides (value : Value) : List (List Step × Value) :=
  ([], value) :: value.parts.attach.flatMap fun part => part.1.2.insides.map (behind part.1.1)
termination_by sizeOf value
decreasing_by exact sizeOf_part_lt part.2

/-- In a value are the value itself and what is in its parts. -/
theorem insides_eq (value : Value) :
    value.insides =
      ([], value) :: value.parts.flatMap fun part => part.2.insides.map (behind part.1) := by
  rw [insides]
  conv_rhs => rw [← List.attach_map_subtype_val value.parts, List.flatMap_map]

/-- What is listed in an ordered value at a path is what the path leads to. -/
theorem mem_insides_iff {value : Value} (ordered : value.Ordered) {path : List Step}
    {inside : Value} : (path, inside) ∈ value.insides ↔ value.at? path = some inside := by
  induction path generalizing value with
  | nil =>
    rw [insides_eq]
    simp [behind, eq_comm]
  | cons step path hypothesis =>
    have below : (step :: path, inside) ∈ value.insides ↔
        ∃ part, (step, part) ∈ value.parts ∧ (path, inside) ∈ part.insides := by
      rw [insides_eq]
      simp [behind]
    rw [below, at?, Option.bind_eq_some_iff]
    refine exists_congr fun part => ?_
    rw [← mem_parts_iff ordered]
    exact and_congr_right fun member => hypothesis (ordered_of_mem_parts ordered member)

/-- The paths to the values in an ordered value ascend. -/
theorem ascending_insides {value : Value} (ordered : value.Ordered) :
    value.insides.Pairwise (·.1 < ·.1) := by
  rw [insides_eq, List.pairwise_cons, List.pairwise_flatMap]
  refine ⟨?_, ?_, ?_⟩
  · intro inside member
    obtain ⟨part, -, listed⟩ := List.mem_flatMap.1 member
    obtain ⟨below, -, rfl⟩ := List.mem_map.1 listed
    exact List.nil_lt_cons _ _
  · intro part member
    rw [List.pairwise_map]
    refine (ascending_insides (ordered_of_mem_parts ordered member)).imp ?_
    intro left right less
    exact List.cons_lt_cons_iff.2 (.inr ⟨rfl, less⟩)
  · refine (ascending_parts ordered).imp ?_
    intro left right less first ofLeft second ofRight
    obtain ⟨below, -, rfl⟩ := List.mem_map.1 ofLeft
    obtain ⟨other, -, rfl⟩ := List.mem_map.1 ofRight
    exact List.cons_lt_cons_iff.2 (.inl less)
termination_by sizeOf value
decreasing_by exact sizeOf_part_lt member

end Value

end StateSlice.Json
