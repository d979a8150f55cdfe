/-!
# JSON values

State, payloads and defaults are JSON values. Integers and doubles are different values; a double
is known by its bits, so a negative zero is not a zero. The entries of an object are a list in
ascending order of their names by Unicode code point, without a repeated name (`Value.Ordered`).
`Entries.insert` keeps that order, and everything here that builds an object goes through it or
through a selection from the entries of another object.
-/
namespace StateSlice.Json

/-- A number: an integer of any size, or a finite double given by its bits. -/
inductive Number
  | int (value : Int)
  | double (bits : UInt64)
deriving DecidableEq

/-- A JSON value. -/
inductive Value
  | null
  | bool (value : Bool)
  | number (value : Number)
  | string (text : String)
  | array (items : List Value)
  | object (entries : List (String × Value))
deriving Inhabited

namespace Value

mutual
/-- Equality of values, entry by entry and item by item. -/
def beq : Value → Value → Bool
  | .null, .null => true
  | .bool left, .bool right => left == right
  | .number left, .number right => left == right
  | .string left, .string right => left == right
  | .array left, .array right => beqItems left right
  | .object left, .object right => beqEntries left right
  | _, _ => false

/-- Equality of the items of two arrays. -/
def beqItems : List Value → List Value → Bool
  | [], [] => true
  | left :: lefts, right :: rights => left.beq right && beqItems lefts rights
  | _, _ => false

/-- Equality of the entries of two objects. -/
def beqEntries : List (String × Value) → List (String × Value) → Bool
  | [], [] => true
  | (name, left) :: lefts, (other, right) :: rights =>
    name == other && left.beq right && beqEntries lefts rights
  | _, _ => false
end

mutual
/-- Comparing values tells exactly whether they are equal. -/
theorem beq_eq_true_iff : ∀ left right : Value, left.beq right = true ↔ left = right
  | .null, right => by cases right <;> simp [beq]
  | .bool _, right => by cases right <;> simp [beq]
  | .number _, right => by cases right <;> simp [beq]
  | .string _, right => by cases right <;> simp [beq]
  | .array items, right => by cases right <;> simp [beq, beqItems_eq_true_iff items]
  | .object entries, right => by cases right <;> simp [beq, beqEntries_eq_true_iff entries]

/-- Comparing the items of two arrays tells exactly whether they are equal. -/
theorem beqItems_eq_true_iff : ∀ left right : List Value, beqItems left right = true ↔ left = right
  | [], right => by cases right <;> simp [beqItems]
  | item :: items, right => by
    cases right with
    | nil => simp [beqItems]
    | cons other others =>
      simp [beqItems, beq_eq_true_iff item other, beqItems_eq_true_iff items others]

/-- Comparing the entries of two objects tells exactly whether they are equal. -/
theorem beqEntries_eq_true_iff :
    ∀ left right : List (String × Value), beqEntries left right = true ↔ left = right
  | [], right => by cases right <;> simp [beqEntries]
  | (name, value) :: entries, right => by
    cases right with
    | nil => simp [beqEntries]
    | cons other others =>
      obtain ⟨otherName, otherValue⟩ := other
      simp [beqEntries, beq_eq_true_iff value otherValue, beqEntries_eq_true_iff entries others]
end

instance : DecidableEq Value := fun left right =>
  decidable_of_iff (left.beq right = true) (beq_eq_true_iff left right)

end Value

/-- The entries of an object. -/
abbrev Entries := List (String × Value)

namespace Entries

/-- The value at a name. -/
def get? (name : String) : Entries → Option Value
  | [] => none
  | (key, value) :: rest => if key = name then some value else get? name rest

/-- Put a value at a name, in place of the value there, or else before the first greater name. -/
def insert (name : String) (value : Value) : Entries → Entries
  | [] => [(name, value)]
  | (key, old) :: rest =>
    if key = name then (name, value) :: rest
    else if name < key then (name, value) :: (key, old) :: rest
    else (key, old) :: insert name value rest

/-- Put every entry of a patch into the entries, in the order of the patch. -/
def merge (entries patch : Entries) : Entries :=
  patch.foldl (fun merged (name, value) => insert name value merged) entries

/-- Entries built from a list in which a later value at the same name wins. -/
def ofList (entries : List (String × Value)) : Entries := merge [] entries

/-- The names, in ascending order. -/
def names (entries : Entries) : List String := entries.map (·.1)

/-- Names ascend strictly. -/
def Ascending (entries : Entries) : Prop := entries.Pairwise (·.1 < ·.1)

/-- No name has a value among no entries. -/
@[simp]
theorem get?_nil (name : String) : get? name [] = none := rfl

/-- Reading back what was put: the new value at its name, the old ones elsewhere. -/
theorem get?_insert (name key : String) (value : Value) (entries : Entries) :
    get? name (insert key value entries) =
      if key = name then some value else get? name entries := by
  induction entries with
  | nil => rfl
  | cons entry rest hypothesis =>
    obtain ⟨first, old⟩ := entry
    simp only [insert]
    split
    · next same => subst same; by_cases same : first = name <;> simp [get?, same]
    · split
      · simp [get?]
      · by_cases found : first = name
        · have different : ¬ key = name := fun same => by simp_all
          simp [get?, found, different]
        · simp [get?, found, hypothesis]

/-- What is among the entries after a value is put there: the new entry or an old one. -/
theorem eq_or_mem_of_mem_insert {name : String} {value : Value} {entries : Entries}
    {entry : String × Value} (member : entry ∈ insert name value entries) :
    entry = (name, value) ∨ entry ∈ entries := by
  induction entries with
  | nil => exact .inl (List.mem_singleton.1 member)
  | cons first rest hypothesis =>
    obtain ⟨key, old⟩ := first
    simp only [insert] at member
    split at member
    · exact (List.mem_cons.1 member).imp id (List.mem_cons_of_mem _)
    · split at member
      · exact List.mem_cons.1 member
      · rcases List.mem_cons.1 member with head | tail
        · exact .inr (head ▸ List.mem_cons_self)
        · exact (hypothesis tail).imp id (List.mem_cons_of_mem _)

/-- Putting a value at a name keeps the names in ascending order. -/
theorem ascending_insert {entries : Entries} (ascending : Ascending entries) (name : String)
    (value : Value) : Ascending (insert name value entries) := by
  induction entries with
  | nil => exact List.pairwise_singleton _ _
  | cons first rest hypothesis =>
    obtain ⟨key, old⟩ := first
    obtain ⟨below, later⟩ := List.pairwise_cons.1 ascending
    simp only [insert]
    split
    · next same =>
      subst same
      exact List.pairwise_cons.2 ⟨below, later⟩
    · next different =>
      split
      · next less =>
        refine List.pairwise_cons.2 ⟨fun entry member => ?_, ascending⟩
        rcases List.mem_cons.1 member with head | tail
        · exact head ▸ less
        · exact String.lt_trans less (below entry tail)
      · next notLess =>
        refine List.pairwise_cons.2 ⟨fun entry member => ?_, hypothesis later⟩
        rcases eq_or_mem_of_mem_insert member with new | old
        · subst new
          exact Std.lt_of_le_of_ne (String.not_lt.1 notLess) different
        · exact below entry old

end Entries

namespace Value

/-- An item is smaller than its array. -/
theorem sizeOf_item_lt {item : Value} {items : List Value} (member : item ∈ items) :
    sizeOf item < sizeOf (Value.array items) := by
  have inner := List.sizeOf_lt_of_mem member
  simp
  omega

/-- The value of an entry is smaller than its object. -/
theorem sizeOf_entry_lt {entry : String × Value} {entries : List (String × Value)}
    (member : entry ∈ entries) : sizeOf entry.2 < sizeOf (Value.object entries) := by
  have inner := List.sizeOf_lt_of_mem member
  obtain ⟨name, value⟩ := entry
  simp at inner ⊢
  omega

/-- The entries of an object, and none for any other value. -/
def entries? : Value → Option Entries
  | .object entries => some entries
  | _ => none

/-- The value at a name of an object; no other value has one. -/
def get? (name : String) : Value → Option Value
  | .object entries => Entries.get? name entries
  | _ => none

/-- Whether the value is an object. -/
def isObject : Value → Bool
  | .object _ => true
  | _ => false

/-- Whether the value is an array. -/
def isArray : Value → Bool
  | .array _ => true
  | _ => false

mutual
/-- Every object in the value lists its names in strictly ascending order. -/
def Ordered : Value → Prop
  | .array items => OrderedItems items
  | .object entries => Entries.Ascending entries ∧ OrderedEntries entries
  | _ => True

/-- Every item is ordered. -/
def OrderedItems : List Value → Prop
  | [] => True
  | item :: items => item.Ordered ∧ OrderedItems items

/-- The value of every entry is ordered. -/
def OrderedEntries : List (String × Value) → Prop
  | [] => True
  | (_, value) :: entries => value.Ordered ∧ OrderedEntries entries
end

/-- The items of an ordered array are ordered. -/
theorem ordered_of_mem_items {items : List Value} (ordered : OrderedItems items) {item : Value}
    (member : item ∈ items) : item.Ordered := by
  induction items with
  | nil => exact absurd member List.not_mem_nil
  | cons first items hypothesis =>
    rw [OrderedItems] at ordered
    rcases List.mem_cons.1 member with rfl | later
    · exact ordered.1
    · exact hypothesis ordered.2 later

/-- The values of the entries of an ordered object are ordered. -/
theorem ordered_of_mem_entries {entries : Entries} (ordered : OrderedEntries entries)
    {entry : String × Value} (member : entry ∈ entries) : entry.2.Ordered := by
  induction entries with
  | nil => exact absurd member List.not_mem_nil
  | cons first entries hypothesis =>
    obtain ⟨name, value⟩ := first
    rw [OrderedEntries] at ordered
    rcases List.mem_cons.1 member with rfl | later
    · exact ordered.1
    · exact hypothesis ordered.2 later

end Value

end StateSlice.Json
