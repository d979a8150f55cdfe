import Mathlib.Data.List.Nodup
import StateSlice.Reducer

/-!
# Combined reducers, name by name

The state of a combined reducer is known by what is read from it at each name, since the entries of
an object are in order. At the name of a child stands what the child made of the value that was
there; of several children with one name it is the last that counts. So a property of reducers that
speaks of states name by name passes from the children to the whole, and from the leaves of a tree
to the reducer of the tree.
-/
namespace StateSlice

open Json (Value Entries)

namespace Json.Entries

/-- What is read at a name is among the entries. -/
theorem mem_of_get? {name : String} {value : Value} {entries : Entries}
    (found : get? name entries = some value) : (name, value) ∈ entries := by
  induction entries with
  | nil => simp [get?] at found
  | cons entry rest hypothesis =>
    obtain ⟨key, own⟩ := entry
    by_cases named : key = name
    · obtain rfl : own = value := by simpa [get?, named] using found
      rw [named]
      exact List.mem_cons_self
    · rw [get?, if_neg named] at found
      exact List.mem_cons_of_mem _ (hypothesis found)

/-- What is among entries in ascending order is read at its name. -/
theorem get?_of_mem {entries : Entries} {entry : String × Value} (ascending : Ascending entries)
    (member : entry ∈ entries) : get? entry.1 entries = some entry.2 := by
  induction entries with
  | nil => simp at member
  | cons first rest hypothesis =>
    obtain ⟨below, later⟩ := List.pairwise_cons.1 ascending
    rcases List.mem_cons.1 member with rfl | member
    · exact if_pos rfl
    · have different : first.1 ≠ entry.1 := (String.ne_of_lt (below entry member))
      rw [get?, if_neg different]
      exact hypothesis later member

/-- Nothing is read at a name that is less than all names. -/
theorem get?_eq_none_of_lt {name : String} {entries : Entries}
    (less : ∀ entry ∈ entries, name < entry.1) : get? name entries = none := by
  induction entries with
  | nil => rfl
  | cons entry rest hypothesis =>
    obtain ⟨key, value⟩ := entry
    have different : key ≠ name := fun same =>
      String.lt_irrefl name (same ▸ less (key, value) List.mem_cons_self)
    rw [get?, if_neg different]
    exact hypothesis fun entry member => less entry (List.mem_cons_of_mem _ member)

/-- Of entries in ascending order from which the same is read, the first names agree: the lesser of
two different ones would be read on one side only. -/
theorem first_le_of_get?_eq {first second : String × Value} {rest others : Entries}
    (ascending : Ascending (first :: rest))
    (same : ∀ name, get? name (first :: rest) = get? name (second :: others)) :
    first.1 ≤ second.1 := by
  refine String.not_lt.1 fun less => ?_
  have unread : get? second.1 (first :: rest) = none := by
    refine get?_eq_none_of_lt fun entry member => ?_
    rcases List.mem_cons.1 member with rfl | member
    · exact less
    · exact String.lt_trans less ((List.pairwise_cons.1 ascending).1 entry member)
  have read : get? second.1 (second :: others) = some second.2 := if_pos rfl
  simp [same, read] at unread

/-- Entries in ascending order are the same if the same is read from them at every name. -/
theorem eq_of_get?_eq {left right : Entries} (leftAscending : Ascending left)
    (rightAscending : Ascending right) (same : ∀ name, get? name left = get? name right) :
    left = right := by
  induction left generalizing right with
  | nil =>
    cases right with
    | nil => rfl
    | cons entry rest => simpa [get?] using same entry.1
  | cons entry rest hypothesis =>
    cases right with
    | nil => simpa [get?] using same entry.1
    | cons other others =>
      obtain ⟨below, later⟩ := List.pairwise_cons.1 leftAscending
      obtain ⟨otherBelow, otherLater⟩ := List.pairwise_cons.1 rightAscending
      have names : entry.1 = other.1 :=
        String.le_antisymm (first_le_of_get?_eq leftAscending same)
          (first_le_of_get?_eq rightAscending fun name => (same name).symm)
      obtain ⟨key, value⟩ := entry
      obtain ⟨otherKey, otherValue⟩ := other
      obtain rfl : key = otherKey := names
      obtain rfl : value = otherValue := by simpa [get?] using same key
      have tails : rest = others := by
        refine hypothesis later otherLater fun name => ?_
        by_cases first : key = name
        · subst first
          rw [get?_eq_none_of_lt below, get?_eq_none_of_lt otherBelow]
        · simpa [get?, first] using same name
      rw [tails]

/-- The names of entries in ascending order are different. -/
theorem nodup_names {entries : Entries} (ascending : Ascending entries) :
    entries.names.Nodup := by
  rw [names, List.Nodup, List.pairwise_map]
  exact ascending.imp String.ne_of_lt

end Json.Entries

namespace Reducer

/-- The reducer that writes a name: the last child of that name. -/
def writer? (name : String) (children : List (String × Reducer)) : Option Reducer :=
  (children.reverse.find? (·.1 == name)).map (·.2)

/-- The reducer that writes a name is a child of that name. -/
theorem mem_of_writer? {name : String} {children : List (String × Reducer)} {child : Reducer}
    (writes : writer? name children = some child) : (name, child) ∈ children := by
  obtain ⟨found, search, rfl⟩ := Option.map_eq_some_iff.1 writes
  have named : found.1 = name := by simpa using List.find?_some search
  have member := List.mem_reverse.1 (List.mem_of_find?_eq_some search)
  rwa [← named]

/-- Putting the states of children into entries keeps the entries in order. -/
theorem ascending_combineInto (state : Option Value) (action : Action)
    (children : List (String × Reducer)) {entries : Entries} (ascending : entries.Ascending) :
    (combineInto state action entries children).Ascending := by
  induction children generalizing entries with
  | nil => exact ascending
  | cons child children hypothesis => exact hypothesis (Entries.ascending_insert ascending _ _)

/-- What is read at a name after the states of children are put into entries. -/
theorem get?_combineInto (state : Option Value) (action : Action) (name : String)
    (children : List (String × Reducer)) (entries : Entries) :
    Entries.get? name (combineInto state action entries children) =
      match writer? name children with
      | some child => some (child.reduce (state.bind (Value.get? name)) action)
      | none => Entries.get? name entries := by
  induction children generalizing entries with
  | nil => rfl
  | cons child children hypothesis =>
    have step : combineInto state action entries (child :: children) =
        combineInto state action (Entries.insert child.1
          (child.2.reduce (state.bind (Value.get? child.1)) action) entries) children := rfl
    rw [step, hypothesis, Entries.get?_insert]
    cases search : children.reverse.find? (·.1 == name) with
    | some found => simp [writer?, List.find?_append, search]
    | none =>
      by_cases named : child.1 = name
      · simp [writer?, List.find?_append, search, named]
      · simp [writer?, List.find?_append, search, named]

/-- What is among the entries of combined reducers is written by the child of its name. -/
theorem exists_writer?_of_mem {children : List (String × Reducer)} {state : Option Value}
    {action : Action} {entry : String × Value}
    (member : entry ∈ combineInto state action [] children) : ∃ child,
      writer? entry.1 children = some child ∧
      entry.2 = child.reduce (state.bind (Value.get? entry.1)) action := by
  have read := Entries.get?_of_mem (ascending_combineInto state action children .nil) member
  rw [get?_combineInto] at read
  cases writes : writer? entry.1 children with
  | none => simp [writes] at read
  | some child => exact ⟨child, rfl, by simpa [writes] using read.symm⟩

/-- A name is written exactly if there is a child of that name. -/
theorem isSome_writer?_iff {name : String} {children : List (String × Reducer)} :
    (writer? name children).isSome = true ↔ name ∈ children.map (·.1) := by
  simp [writer?]

/-- Of children with different names, each writes its name. -/
theorem writer?_of_mem {name : String} {child : Reducer} {children : List (String × Reducer)}
    (distinct : (children.map (·.1)).Nodup) (member : (name, child) ∈ children) :
    writer? name children = some child := by
  have named : name ∈ children.map (·.1) := List.mem_map_of_mem member
  have written := isSome_writer?_iff.2 named
  obtain ⟨other, writes⟩ := Option.isSome_iff_exists.1 written
  have same := List.inj_on_of_nodup_map distinct (mem_of_writer? writes) member rfl
  rw [writes, (Prod.mk.inj same).2]

/-- The state of combined reducers with different names has one entry for each of them, and no
other. -/
theorem perm_names_combineInto {children : List (String × Reducer)}
    (distinct : (children.map (·.1)).Nodup) (state : Option Value) (action : Action) :
    (combineInto state action [] children).names.Perm (children.map (·.1)) := by
  have different := Entries.nodup_names (ascending_combineInto state action children .nil)
  refine (List.perm_ext_iff_of_nodup different distinct).2 fun name => ?_
  rw [← isSome_writer?_iff]
  constructor
  · intro named
    obtain ⟨entry, member, rfl⟩ := List.mem_map.1 named
    obtain ⟨child, writes, -⟩ := exists_writer?_of_mem member
    exact Option.isSome_of_eq_some writes
  · intro written
    obtain ⟨child, writes⟩ := Option.isSome_iff_exists.1 written
    have read := get?_combineInto state action name children []
    rw [writes] at read
    have member : (name, _) ∈ combineInto state action [] children := Entries.mem_of_get? read
    exact List.mem_map_of_mem member

/-- What is read at a name from the state of combined reducers. -/
theorem get?_reduce_combine (children : List (String × Reducer)) (state : Option Value)
    (action : Action) (name : String) :
    Value.get? name ((combine children).reduce state action) =
      (writer? name children).map fun child =>
        child.reduce (state.bind (Value.get? name)) action := by
  have read := get?_combineInto state action name children []
  cases writes : writer? name children <;> simpa [combine, Value.get?, writes] using read

/-- Combined reducers come to the same state if every child that writes a name does. -/
theorem reduce_combine_congr {children : List (String × Reducer)} {state other : Option Value}
    {action instead : Action}
    (agree : ∀ name child, writer? name children = some child →
      child.reduce (state.bind (Value.get? name)) action =
        child.reduce (other.bind (Value.get? name)) instead) :
    (combine children).reduce state action = (combine children).reduce other instead := by
  refine congrArg Value.object (Entries.eq_of_get?_eq (ascending_combineInto _ _ _ .nil)
    (ascending_combineInto _ _ _ .nil) fun name => ?_)
  rw [get?_combineInto, get?_combineInto]
  cases writes : writer? name children with
  | none => rfl
  | some child => exact congrArg some (agree name child writes)

end Reducer

namespace Tree

variable {α : Type}

/-- The reducer of a branch of a mapped tree. -/
theorem combined_map_branch (f : α → Reducer) (location : String) (boundary : Bool)
    (children : List (String × Tree α)) :
    ((Tree.branch location boundary children).map f).combined =
      .combine (children.map fun child => (child.1, (child.2.map f).combined)) := by
  rw [map, combined, combinedChildren_eq_map, mapChildren_eq_map, List.map_map]
  rfl

/-- What holds of the reducers of all payloads, and of combined reducers if it holds of the parts,
holds of the reducer of a whole tree. -/
theorem combined_map_induct {motive : Reducer → Prop} {f : α → Reducer}
    (leaf : ∀ payload, motive (f payload))
    (combine : ∀ children, (∀ child ∈ children, motive child.2) → motive (.combine children))
    (tree : Tree α) : motive (tree.map f).combined := by
  induction tree using Tree.induct with
  | leaf payload => exact leaf payload
  | branch location boundary children hypothesis =>
    rw [combined_map_branch]
    refine combine _ fun child member => ?_
    obtain ⟨source, sourceMember, rfl⟩ := List.mem_map.1 member
    exact hypothesis source sourceMember

end Tree

end StateSlice
