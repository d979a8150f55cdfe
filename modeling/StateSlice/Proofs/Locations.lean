import Mathlib.Data.List.Basic
import StateSlice.Leaf

/-!
# Locations and types of actions as codes

A leaf decides by comparing texts what an action asks of it. The texts are codes: the type of an
action gives back its operation and its location, the location of a path of names gives back the
names, and one location is within another exactly if its path goes on from the path of the other.
No name is excluded, so a name may be empty, hold points, slashes and backslashes, or go on from
another name.
-/
namespace StateSlice

namespace Operation

/-- No suffix has a slash in it. -/
theorem slash_notMem_suffix (operation : Operation) : '/' ∉ operation.suffix.toList := by
  cases operation <;> decide

/-- Different operations have different suffixes. -/
theorem suffix_injective : Function.Injective suffix := by
  intro operation other same
  cases operation <;> cases other <;> simp [suffix] at same ⊢

/-- The characters of a type of action. -/
theorem toList_actionType (operation : Operation) (location : String) :
    (operation.actionType location).toList =
      location.toList ++ '/' :: operation.suffix.toList := by
  simp [actionType]

/-- What stands before and after the last slash of a text is determined by the text. -/
theorem append_slash_inj {front back head tail : List Char} (last : '/' ∉ back)
    (last' : '/' ∉ tail) (same : front ++ '/' :: back = head ++ '/' :: tail) :
    front = head ∧ back = tail := by
  obtain ⟨between, rfl, rest⟩ | ⟨between, rfl, rest⟩ := List.append_eq_append_iff.1 same
  · cases between with
    | nil => simpa using rest
    | cons c between =>
      obtain ⟨-, rfl⟩ := List.cons.inj rest
      simp at last
  · cases between with
    | nil => simpa [eq_comm] using rest
    | cons c between =>
      obtain ⟨-, rfl⟩ := List.cons.inj rest
      simp at last'

/-- A type of action determines its operation and its location. -/
theorem actionType_inj {operation other : Operation} {location place : String} :
    operation.actionType location = other.actionType place ↔
      operation = other ∧ location = place := by
  constructor
  · intro same
    have text := congrArg String.toList same
    rw [toList_actionType, toList_actionType] at text
    obtain ⟨locations, suffixes⟩ :=
      append_slash_inj operation.slash_notMem_suffix other.slash_notMem_suffix text
    exact ⟨suffix_injective (String.toList_inj.1 suffixes), String.toList_inj.1 locations⟩
  · rintro ⟨rfl, rfl⟩
    rfl

/-- The location read from a type of action is the one that the type was made from. -/
theorem locationOf?_eq_some_iff {operation : Operation} {type location : String} :
    operation.locationOf? type = some location ↔ operation.actionType location = type := by
  rw [locationOf?, Option.map_eq_some_iff]
  simp only [List.isSuffixOf?_eq_some_iff_append_eq]
  constructor
  · rintro ⟨front, text, rfl⟩
    rw [← String.toList_inj, toList_actionType, String.toList_ofList, text]
  · rintro rfl
    exact ⟨location.toList, (toList_actionType _ _).symm, String.ofList_toList⟩

/-- From the type that an operation makes for a location, that operation reads the location, and any
other reads none. -/
theorem locationOf?_actionType (operation other : Operation) (location : String) :
    other.locationOf? (operation.actionType location) =
      if operation = other then some location else none := by
  by_cases same : operation = other
  · rw [if_pos same, locationOf?_eq_some_iff, same]
  · rw [if_neg same, Option.eq_none_iff_forall_ne_some]
    intro place found
    have types := locationOf?_eq_some_iff.1 found
    exact same (actionType_inj.1 types).1.symm

/-- A type of action whose last slash is followed by no suffix is the type of no operation. -/
theorem actionType_ne (front : String) {back : String} (last : '/' ∉ back.toList)
    (foreign : ∀ operation : Operation, operation.suffix ≠ back) (operation : Operation)
    (location : String) : operation.actionType location ≠ front ++ "/" ++ back := by
  intro same
  have text : location.toList ++ '/' :: operation.suffix.toList =
      front.toList ++ '/' :: back.toList := by
    simpa [actionType] using congrArg String.toList same
  exact foreign operation
    (String.toList_inj.1 (append_slash_inj operation.slash_notMem_suffix last text).2)

/-- No operation makes actions with the type of a batch. -/
theorem actionType_ne_batchType (operation : Operation) (location : String) :
    operation.actionType location ≠ Action.batchType :=
  actionType_ne "@@storechunk" (by decide : '/' ∉ "BATCH".toList)
    (fun operation => by cases operation <;> decide) operation location

/-- No operation makes actions with the type of the action that asks for nothing. -/
theorem actionType_ne_initType (operation : Operation) (location : String) :
    operation.actionType location ≠ Action.initType :=
  actionType_ne "@@storechunk" (by decide : '/' ∉ "INIT".toList)
    (fun operation => by cases operation <;> decide) operation location

end Operation

namespace LeafActions

/-- A type of action asks for an operation exactly if the leaf has the operation and the type is
the one of its actions at the location of the leaf. -/
theorem operationFor?_eq_some_iff {actions : LeafActions} {type : String} {operation : Operation} :
    actions.operationFor? type = some operation ↔
      operation ∈ actions.operations ∧ operation.actionType actions.location = type := by
  simp only [operationFor?, creators, List.find?_map, Option.map_map, Option.map_eq_some_iff]
  constructor
  · rintro ⟨found, search, rfl⟩
    have matching := List.find?_some search
    exact ⟨List.mem_of_find?_eq_some search, by simpa [Creator.of] using matching⟩
  · rintro ⟨member, rfl⟩
    cases search : actions.operations.find?
        ((fun creator : Creator => creator.actionType == operation.actionType actions.location) ∘
          fun operation => Creator.of operation actions.location) with
    | none => simpa [Creator.of] using List.find?_eq_none.1 search operation member
    | some found =>
      have same : found.actionType actions.location = operation.actionType actions.location := by
        simpa [Creator.of] using List.find?_some search
      exact ⟨found, rfl, (Operation.actionType_inj.1 same).1⟩

/-- The reset of a boundary is no operation of a leaf. -/
theorem resetAll_notMem_operations (actions : LeafActions) :
    Operation.resetAll ∉ actions.operations := by
  cases kind : actions.kind <;> simp [operations, kind]

/-- No leaf has an operation that the reset of a boundary asks for. -/
theorem operationFor?_resetAll (actions : LeafActions) (boundary : String) :
    actions.operationFor? (Operation.resetAll.actionType boundary) = none := by
  rw [Option.eq_none_iff_forall_ne_some]
  intro operation found
  obtain ⟨member, same⟩ := operationFor?_eq_some_iff.1 found
  obtain ⟨rfl, -⟩ := Operation.actionType_inj.1 same
  exact actions.resetAll_notMem_operations member

/-- The reset of a boundary resets the leaves whose locations are within that of the boundary. -/
theorem isResetBy_resetAll (actions : LeafActions) (boundary : String) :
    actions.isResetBy (Operation.resetAll.actionType boundary) =
      Location.isWithin actions.location boundary := by
  simp only [isResetBy, Operation.locationOf?_eq_some_iff.2 rfl]

/-- The action that asks for nothing concerns no leaf. -/
theorem isAddressedBy_initType (actions : LeafActions) :
    actions.isAddressedBy Action.initType = false := by
  have unasked : actions.operationFor? Action.initType = none := by
    rw [Option.eq_none_iff_forall_ne_some]
    intro operation found
    exact operation.actionType_ne_initType _ (operationFor?_eq_some_iff.1 found).2
  have unread : Operation.resetAll.locationOf? Action.initType = none := by
    rw [Option.eq_none_iff_forall_ne_some]
    intro boundary found
    exact Operation.resetAll.actionType_ne_initType _ (Operation.locationOf?_eq_some_iff.1 found)
  simp [isAddressedBy, isResetBy, unasked, unread]

end LeafActions

namespace Location

/-- An escaped character has a backslash in front. -/
theorem escapeChars_cons_escaped {c : Char} (escaped : isEscaped c = true) (name : List Char) :
    escapeChars (c :: name) = '\\' :: c :: escapeChars name := by
  simp [escapeChars, escaped]

/-- Any other character stands for itself, and is no backslash. -/
theorem escapeChars_cons_plain {c : Char} (plain : isEscaped c = false) (name : List Char) :
    escapeChars (c :: name) = c :: escapeChars name ∧ c ≠ '\\' ∧ c ≠ '.' := by
  refine ⟨by simp [escapeChars, plain], ?_, ?_⟩ <;> rintro rfl <;> simp [isEscaped] at plain

/-- A text that is empty or starts with a point, as what follows a name in a location does. -/
def StartsAtPoint (text : List Char) : Prop := ∀ c ∈ text.head?, c = '.'

/-- No escaped name starts with a point. -/
theorem eq_nil_of_startsAtPoint {name rest : List Char}
    (starts : StartsAtPoint (escapeChars name ++ rest)) : name = [] := by
  cases name with
  | nil => rfl
  | cons c name =>
    cases escaped : isEscaped c with
    | true => simp [escapeChars_cons_escaped escaped, StartsAtPoint] at starts
    | false =>
      obtain ⟨text, -, noPoint⟩ := escapeChars_cons_plain escaped name
      rw [text] at starts
      exact absurd (starts c rfl) noPoint

/-- What is read as a name from a text, and what is left after it, are determined by the text, as
long as the rest starts at a point. -/
theorem escapeChars_append_inj {name other rest tail : List Char} (restStarts : StartsAtPoint rest)
    (tailStarts : StartsAtPoint tail)
    (same : escapeChars name ++ rest = escapeChars other ++ tail) : name = other ∧ rest = tail := by
  induction name generalizing other with
  | nil =>
    have starts : StartsAtPoint (escapeChars other ++ tail) := same ▸ restStarts
    obtain rfl := eq_nil_of_startsAtPoint starts
    exact ⟨rfl, same⟩
  | cons c name hypothesis =>
    cases other with
    | nil =>
      have starts : StartsAtPoint (escapeChars (c :: name) ++ rest) := same ▸ tailStarts
      exact absurd (eq_nil_of_startsAtPoint starts) (by simp)
    | cons d other =>
      cases left : isEscaped c with
      | true =>
        cases right : isEscaped d with
        | true =>
          rw [escapeChars_cons_escaped left, escapeChars_cons_escaped right] at same
          obtain ⟨rfl, later⟩ : c = d ∧ escapeChars name ++ rest = escapeChars other ++ tail := by
            simpa using same
          exact (hypothesis later).imp (congrArg _) id
        | false =>
          obtain ⟨text, noBackslash, -⟩ := escapeChars_cons_plain right other
          rw [escapeChars_cons_escaped left, text] at same
          exact absurd (List.cons.inj same).1.symm noBackslash
      | false =>
        obtain ⟨text, noBackslash, -⟩ := escapeChars_cons_plain left name
        cases right : isEscaped d with
        | true =>
          rw [text, escapeChars_cons_escaped right] at same
          exact absurd (List.cons.inj same).1 noBackslash
        | false =>
          rw [text, (escapeChars_cons_plain right other).1] at same
          obtain ⟨rfl, later⟩ := List.cons.inj same
          exact (hypothesis later).imp (congrArg _) id

/-- The characters that a path of names adds to a location. -/
def pathChars (path : List String) : List Char :=
  path.flatMap fun name => '.' :: escapeChars name.toList

/-- What a path adds to a location starts at a point, and so does what follows it. -/
theorem startsAtPoint_pathChars_append (path : List String) {rest : List Char}
    (starts : StartsAtPoint rest) : StartsAtPoint (pathChars path ++ rest) := by
  cases path with
  | nil => exact starts
  | cons name path => simp [pathChars, StartsAtPoint]

/-- The characters of the location of a path. -/
theorem toList_descend (root : String) (path : List String) :
    (descend root path).toList = root.toList ++ pathChars path := by
  induction path generalizing root with
  | nil => simp [descend, pathChars]
  | cons name path hypothesis =>
    have step : descend root (name :: path) = descend (child root name) path := rfl
    simp [step, hypothesis, child, escape, pathChars]

/-- A path whose text starts with the text of another path goes on from that path, as long as what
is left starts at a point. -/
theorem prefix_of_pathChars_append {path other : List String} {rest : List Char}
    (starts : StartsAtPoint rest) (same : pathChars other ++ rest = pathChars path) :
    other <+: path := by
  induction other generalizing path with
  | nil => exact List.nil_prefix
  | cons name other hypothesis =>
    cases path with
    | nil => simp [pathChars] at same
    | cons first path =>
      have names : escapeChars name.toList ++ (pathChars other ++ rest) =
          escapeChars first.toList ++ (pathChars path ++ []) := by
        simpa [pathChars] using same
      obtain ⟨text, later⟩ := escapeChars_append_inj
        (startsAtPoint_pathChars_append other starts)
        (startsAtPoint_pathChars_append path (by simp [StartsAtPoint])) names
      obtain rfl := String.toList_inj.1 text
      exact List.cons_prefix_cons.2 ⟨rfl, hypothesis (by simpa using later)⟩

/-- A location is within another if it goes on from its text at a point. -/
theorem isWithin_iff {location boundary : String} :
    isWithin location boundary = true ↔
      ∃ rest, boundary.toList ++ rest = location.toList ∧ StartsAtPoint rest := by
  rw [isWithin]
  constructor
  · intro within
    split at within
    · next found => exact ⟨[], List.append_eq_of_isPrefixOf?_eq_some found, by simp [StartsAtPoint]⟩
    · next c rest found =>
      refine ⟨c :: rest, List.append_eq_of_isPrefixOf?_eq_some found, ?_⟩
      simpa [StartsAtPoint] using within
    · contradiction
  · rintro ⟨rest, text, starts⟩
    rw [List.isPrefixOf?_eq_some_iff_append_eq.2 text]
    cases rest with
    | nil => rfl
    | cons c rest => simpa [StartsAtPoint] using starts

/-- Every location is within itself. -/
theorem isWithin_self (location : String) : isWithin location location = true :=
  isWithin_iff.2 ⟨[], List.append_nil _, by simp [StartsAtPoint]⟩

/-- The text of a path goes on at a point from the text of another exactly if the path goes on from
the other. -/
theorem exists_pathChars_append_iff {path other : List String} :
    (∃ rest, pathChars other ++ rest = pathChars path ∧ StartsAtPoint rest) ↔ other <+: path := by
  constructor
  · rintro ⟨rest, text, starts⟩
    exact prefix_of_pathChars_append starts text
  · rintro ⟨more, rfl⟩
    refine ⟨pathChars more, by simp [pathChars], ?_⟩
    simpa using startsAtPoint_pathChars_append more (show StartsAtPoint [] by simp [StartsAtPoint])

/-- The location of a path is within the location of another exactly if it goes on from it. -/
theorem isWithin_descend_iff (root : String) (path other : List String) :
    isWithin (descend root path) (descend root other) = true ↔ other <+: path := by
  rw [isWithin_iff, ← exists_pathChars_append_iff]
  simp only [toList_descend, List.append_assoc, List.append_cancel_left_eq]

/-- Below the location of a name the name counts as the first of the path: a location below it is
within one below another name only if the names are the same. -/
theorem isWithin_descend_escape_iff (name other : String) (path more : List String) :
    isWithin (descend (escape name) path) (descend (escape other) more) = true ↔
      other :: more <+: name :: path := by
  rw [isWithin_iff, ← exists_pathChars_append_iff]
  have text (name : String) (path : List String) :
      '.' :: (descend (escape name) path).toList = pathChars (name :: path) := by
    simp [toList_descend, escape, pathChars]
  simp only [← text, List.cons_append, List.cons.injEq, true_and]

end Location

end StateSlice
