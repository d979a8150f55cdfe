import StateSlice.Action.Wire
import StateSlice.Proofs.Combination

/-!
# Reading wire forms

An action is known by its wire form: what is written is read back as the same action, whatever is in
it and however deep its actions nest. One action can be read from several forms, since a missing
field and a null one are the same and other fields are ignored, but only one of them is what is
written for it: the one that is canonical at every level.
-/
namespace StateSlice

open Json (Value Entries)

namespace Json

namespace Entries

/-- What is read from entries in a row is read from the first of them that have the name. -/
theorem get?_append (name : String) (front back : Entries) :
    get? name (front ++ back) = (get? name front <|> get? name back) := by
  induction front with
  | nil => rfl
  | cons entry front hypothesis =>
    obtain ⟨key, value⟩ := entry
    by_cases named : key = name
    · simp [get?, named]
    · simpa [get?, named] using hypothesis

/-- Entries ascend if their names do. -/
theorem ascending_of_names {entries : Entries} (ascending : entries.names.Pairwise (· < ·)) :
    entries.Ascending := List.pairwise_map.1 ascending

/-- Nothing is read at a name that no entry has. -/
theorem get?_eq_none {name : String} {entries : Entries} (absent : name ∉ entries.names) :
    get? name entries = none := by
  cases found : get? name entries with
  | none => rfl
  | some value => exact absurd (List.mem_map_of_mem (mem_of_get? found)) absent

end Entries

end Json

namespace Action

/-- The entries of the wire form of an action. -/
def fields (action : Action) : Entries :=
  optionalEntry "actions"
    (if action.actions.isEmpty then none else some (.array (action.actions.map toValue))) ++
  optionalEntry "index" (action.index.map fun index => .number (.int index.toNat)) ++
  optionalEntry "name" (action.name.map .string) ++
  [("payload", action.payload), ("type", .string action.type)]

/-- The wire form of an action is the object of its fields. -/
theorem toValue_eq_object (action : Action) : action.toValue = .object action.fields := by
  obtain ⟨type, payload, index, name, actions⟩ := action
  rw [toValue, fields, toValues_eq_map]

/-- What is read from an optional entry. -/
theorem get?_optionalEntry (name key : String) (value : Option Value) :
    Entries.get? name (optionalEntry key value) = if key = name then value else none := by
  cases value with
  | none => simp [optionalEntry]
  | some value => rfl

/-- What is read from the fields of an action: the type and the payload in any case, and what else
there is. -/
theorem get?_fields (action : Action) (name : String) :
    Entries.get? name action.fields =
      if name = "type" then some (.string action.type)
      else if name = "payload" then some action.payload
      else if name = "index" then action.index.map fun index => .number (.int index.toNat)
      else if name = "name" then action.name.map .string
      else if name = "actions" ∧ action.actions ≠ [] then
        some (.array (action.actions.map toValue))
      else none := by
  simp only [fields, Entries.get?_append, get?_optionalEntry, Entries.get?, eq_comm (b := name)]
  by_cases known : name ∈ fieldNames
  · simp only [fieldNames, List.mem_cons, List.not_mem_nil, or_false] at known
    rcases known with rfl | rfl | rfl | rfl | rfl <;> simp
  · simp only [fieldNames, List.mem_cons, List.not_mem_nil, or_false, not_or] at known
    simp [known]

/-- The names of the fields are written in ascending order. -/
theorem names_fields_sublist (action : Action) :
    action.fields.names.Sublist ["actions", "index", "name", "payload", "type"] := by
  have optional (key : String) (value : Option Value) :
      (Entries.names (optionalEntry key value)).Sublist [key] := by
    cases value with
    | none => exact List.nil_sublist [key]
    | some value => exact List.Sublist.refl [key]
  rw [fields, Entries.names, List.map_append, List.map_append, List.map_append]
  exact (((optional "actions" _).append (optional "index" _)).append (optional "name" _)).append
    (List.Sublist.refl ["payload", "type"])

/-- No other field is written. -/
theorem names_fields_subset (action : Action) : action.fields.names ⊆ fieldNames :=
  List.Subset.trans (names_fields_sublist action).subset (by decide)

/-- The fields are written in ascending order. -/
theorem ascending_fields (action : Action) : action.fields.Ascending := by
  have ascending : ["actions", "index", "name", "payload", "type"].Pairwise (· < ·) := by decide
  exact Entries.ascending_of_names (ascending.sublist (names_fields_sublist action))

/-- The actions in the field of that name. -/
theorem actionsField?_eq (entries : Entries) :
    actionsField? entries = ((Entries.get? "actions" entries).map actionList?).getD (some []) := by
  induction entries with
  | nil => rfl
  | cons entry entries hypothesis =>
    obtain ⟨name, value⟩ := entry
    by_cases named : name = "actions"
    · simp [actionsField?, Entries.get?, named]
    · simpa [actionsField?, Entries.get?, named] using hypothesis

/-- A text is read from a text only. -/
theorem readText?_eq_some_iff {value : Value} {text : String} :
    readText? value = some text ↔ value = .string text := by
  cases value <;> simp [readText?]

/-- An action is read from an object field by field. -/
theorem ofValue?_object_eq_some_iff {entries : Entries} {action : Action} :
    ofValue? (.object entries) = some action ↔
      Entries.get? "type" entries = some (.string action.type) ∧
      (Entries.get? "payload" entries).getD .null = action.payload ∧
      ((Entries.get? "index" entries).map readIndex?).getD (some none) = some action.index ∧
      ((Entries.get? "name" entries).map readName?).getD (some none) = some action.name ∧
      ((Entries.get? "actions" entries).map actionList?).getD (some []) = some action.actions := by
  obtain ⟨type, payload, index, name, actions⟩ := action
  simp only [ofValue?, actionsField?_eq, Option.bind_eq_bind, Option.bind_eq_some_iff,
    readText?_eq_some_iff, Option.some.injEq, mk.injEq]
  constructor
  · rintro ⟨_, ⟨_, hasType, rfl⟩, _, hasIndex, _, hasName, _, hasActions, rfl, rfl, rfl, rfl, rfl⟩
    exact ⟨hasType, rfl, hasIndex, hasName, hasActions⟩
  · rintro ⟨hasType, hasPayload, hasIndex, hasName, hasActions⟩
    exact ⟨type, ⟨_, hasType, rfl⟩, index, hasIndex, name, hasName, actions, hasActions, rfl,
      hasPayload, rfl, rfl, rfl⟩

/-- An index is read from the number that is written for it. -/
theorem readIndex?_number (index : UInt64) :
    readIndex? (.number (.int index.toNat)) = some (some index) := by
  have small : index.toNat < UInt64.size := index.toNat_lt
  simp [readIndex?, small]

/-- What an index is read from, if it is not null, is what is written for it. -/
theorem eq_of_readIndex? {value : Value} {index : Option UInt64} (present : value ≠ .null)
    (read : readIndex? value = some index) :
    index.map (fun index => Value.number (.int index.toNat)) = some value := by
  cases value with
  | null => exact absurd rfl present
  | number number =>
    cases number with
    | int value =>
      rw [readIndex?, Option.ite_none_right_eq_some] at read
      obtain ⟨⟨positive, small⟩, same⟩ := read
      obtain rfl := Option.some.inj same
      have back : (UInt64.ofNat value.toNat).toNat = value.toNat := UInt64.toNat_ofNat_of_lt small
      rw [Option.map_some, back, Int.toNat_of_nonneg positive]
    | double bits => simp [readIndex?] at read
  | _ => simp [readIndex?] at read

/-- What a name is read from, if it is not null, is what is written for it. -/
theorem eq_of_readName? {value : Value} {name : Option String} (present : value ≠ .null)
    (read : readName? value = some name) : name.map Value.string = some value := by
  cases value with
  | null => exact absurd rfl present
  | string text =>
    obtain rfl := Option.some.inj read
    rfl
  | _ => simp [readName?] at read

mutual
-- The recursion is that of `toValue`: through the actions of an action, and theirs.

/-- What is written for an action is read as the action. -/
theorem ofValue?_toValue : ∀ action : Action, ofValue? action.toValue = some action
  | ⟨type, payload, index, name, actions⟩ => by
    have inside : ofValues? (actions.map toValue) = some actions := ofValues?_toValues actions
    rw [toValue_eq_object, ofValue?_object_eq_some_iff]
    refine ⟨by simp [get?_fields], by simp [get?_fields], ?_, ?_, ?_⟩
    · cases index <;> simp [get?_fields, readIndex?_number]
    · cases name <;> simp [get?_fields, readName?]
    · cases actions with
      | nil => simp [get?_fields]
      | cons action actions => simpa [get?_fields, actionList?] using inside

/-- What is written for actions is read as the actions. -/
theorem ofValues?_toValues : ∀ actions : List Action,
    ofValues? (actions.map toValue) = some actions
  | [] => rfl
  | action :: actions => by
    simp [ofValues?, ofValue?_toValue action, ofValues?_toValues actions]
end

/-- A wire form has no null, no field too much and none that could be missing, at every level: it is
an object with a payload, without a null index or name, an empty list of actions or an unknown
field, and each of its actions is canonical. -/
inductive Canonical : Value → Prop
  | object {entries : Entries}
      (payload : (Entries.get? "payload" entries).isSome)
      (index : Entries.get? "index" entries ≠ some .null)
      (name : Entries.get? "name" entries ≠ some .null)
      (actions : Entries.get? "actions" entries ≠ some (.array []))
      (known : entries.names ⊆ fieldNames)
      (inside : ∀ items, Entries.get? "actions" entries = some (.array items) →
        ∀ item ∈ items, Canonical item) : Canonical (.object entries)

/-- A canonical form is an object without a null name. -/
theorem Canonical.get?_name_ne_null {form : Value} (canonical : Canonical form) :
    form.get? "name" ≠ some .null := by
  cases canonical with
  | object _ _ name _ _ _ => exact name

/-- What is written for an action is canonical. -/
theorem canonical_toValue : ∀ action : Action, Canonical action.toValue
  | ⟨type, payload, index, name, actions⟩ => by
    rw [toValue_eq_object]
    refine .object (by simp [get?_fields]) ?_ ?_ ?_ (names_fields_subset _) ?_
    · cases index <;> simp [get?_fields]
    · cases name <;> simp [get?_fields]
    · cases actions <;> simp [get?_fields]
    · intro items found item member
      have same : actions.map toValue = items := by
        simp [get?_fields] at found
        exact found.2
      rw [← same] at member
      obtain ⟨action, among, rfl⟩ := List.mem_map.1 member
      exact canonical_toValue action

/-- Actions that are read from canonical forms, one by one, are written as these. -/
theorem map_toValue_of_ofValues? {items : List Value} {actions : List Action}
    (read : ofValues? items = some actions)
    (each : ∀ item ∈ items, ∀ action, ofValue? item = some action → action.toValue = item) :
    actions.map toValue = items := by
  induction items generalizing actions with
  | nil =>
    obtain rfl : [] = actions := by simpa [ofValues?] using read
    rfl
  | cons item items hypothesis =>
    simp only [ofValues?, Option.bind_eq_bind, Option.bind_eq_some_iff, Option.some.injEq] at read
    obtain ⟨action, first, later, rest, rfl⟩ := read
    rw [List.map_cons, each item List.mem_cons_self action first, hypothesis rest fun item member =>
      each item (List.mem_cons_of_mem _ member)]

/-- A field that may be missing and is not null is what is written for what is read from it. -/
theorem map_of_optional {α : Type} {field : Option Value} {value : Option α}
    {read : Value → Option (Option α)} {write : α → Value} (present : field ≠ some .null)
    (exact : ∀ form, form ≠ .null → read form = some value → value.map write = some form)
    (has : (field.map read).getD (some none) = some value) : value.map write = field := by
  cases field with
  | none =>
    obtain rfl : none = value := by simpa using has
    rfl
  | some form =>
    have full : form ≠ .null := fun null => present (by rw [null])
    exact exact form full has

/-- A list of actions that is missing or not empty, and whose items are what is written for the
actions that are read from them, is what is written for the list that is read from it. -/
theorem array_of_actions {field : Option Value} {actions : List Action}
    (filled : field ≠ some (.array []))
    (each : ∀ items, field = some (.array items) →
      ∀ item ∈ items, ∀ action, ofValue? item = some action → action.toValue = item)
    (has : (field.map actionList?).getD (some []) = some actions) :
    (if actions ≠ [] then some (Value.array (actions.map toValue)) else none) = field := by
  cases field with
  | none =>
    obtain rfl : [] = actions := by simpa using has
    rfl
  | some form =>
    cases form with
    | array items =>
      have read : ofValues? items = some actions := has
      have same := map_toValue_of_ofValues? read (each items rfl)
      have some : actions ≠ [] := by
        rintro rfl
        exact filled (by rw [← same, List.map_nil])
      rw [if_pos some, same]
    | _ => simp [actionList?] at has

/-- A canonical form is what is written for the action that is read from it. -/
theorem toValue_of_canonical {form : Value} (canonical : Canonical form) :
    ∀ action, form.Ordered → ofValue? form = some action → action.toValue = form := by
  induction canonical with
  | @object entries payload index name actions known inside hypothesis =>
    intro action ordered read
    rw [Value.Ordered] at ordered
    obtain ⟨hasType, hasPayload, hasIndex, hasName, hasActions⟩ :=
      ofValue?_object_eq_some_iff.1 read
    have atPayload : some action.payload = Entries.get? "payload" entries := by
      obtain ⟨value, found⟩ := Option.isSome_iff_exists.1 payload
      simpa [found] using hasPayload.symm
    have atIndex := map_of_optional index (fun form => eq_of_readIndex?) hasIndex
    have atName := map_of_optional name (fun form => eq_of_readName?) hasName
    have atActions := by
      refine array_of_actions actions (fun items found item member action => ?_) hasActions
      have list := Value.ordered_of_mem_entries ordered.2 (Entries.mem_of_get? found)
      rw [Value.Ordered] at list
      exact hypothesis items found item member action (Value.ordered_of_mem_items list member)
    rw [toValue_eq_object]
    refine congrArg Value.object (Entries.eq_of_get?_eq (ascending_fields action) ordered.1 ?_)
    intro key
    rw [get?_fields]
    by_cases field : key ∈ fieldNames
    · simp only [fieldNames, List.mem_cons, List.not_mem_nil, or_false] at field
      rcases field with rfl | rfl | rfl | rfl | rfl
      · simp [hasType]
      · simp [atPayload]
      · simpa using atIndex
      · simpa using atName
      · simpa using atActions
    · rw [Entries.get?_eq_none fun named => field (known named)]
      simp only [fieldNames, List.mem_cons, List.not_mem_nil, or_false, not_or] at field
      simp [field]

/-- What is written for an action is read as the action. Of the forms from which an action is read,
every one comes to the same action again when the action is written and read, and the one that is
written for it is the canonical one. -/
theorem ofValue?_exact :
    (∀ action : Action, ofValue? action.toValue = some action) ∧
    ∀ (form : Value) (action : Action), form.Ordered → ofValue? form = some action →
      ofValue? action.toValue = some action ∧ (action.toValue = form ↔ Canonical form) := by
  refine ⟨ofValue?_toValue, fun form action ordered read => ⟨ofValue?_toValue action, ?_⟩⟩
  constructor
  · rintro rfl
    exact canonical_toValue action
  · intro canonical
    exact toValue_of_canonical canonical action ordered read

/-- A batch with a null name is read as a batch without a name, for which another form is written;
the action inside it has its own form again. -/
theorem ofValue?_exact_nullName :
    let inner : Value := .object [("index", .number (.int 2)), ("payload", .null),
      ("type", .string "list/REMOVE_AT_INDEX")]
    let removal : Action := ⟨"list/REMOVE_AT_INDEX", .null, some 2, none, []⟩
    let form : Value := .object [("actions", .array [inner]), ("name", .null), ("payload", .null),
      ("type", .string batchType)]
    let whole : Action := ⟨batchType, .null, none, none, [removal]⟩
    (form.Ordered ∧ ofValue? form = some whole ∧ ofValue? whole.toValue = some whole ∧
      whole.toValue ≠ form) ∧
    inner.Ordered ∧ ofValue? inner = some removal ∧ removal.toValue = inner ∧ Canonical inner := by
  intro inner removal form whole
  have orderedInner : inner.Ordered := by
    have names : ["index", "payload", "type"].Pairwise (· < ·) := by decide
    simp only [inner, Value.Ordered, Value.OrderedEntries, and_true]
    exact Entries.ascending_of_names names
  have ordered : form.Ordered := by
    have names : ["actions", "name", "payload", "type"].Pairwise (· < ·) := by decide
    simp only [form, Value.Ordered, Value.OrderedEntries, Value.OrderedItems, and_true]
    exact ⟨Entries.ascending_of_names names, orderedInner⟩
  have read : ofValue? form = some whole := rfl
  have readInner : ofValue? inner = some removal := rfl
  obtain ⟨again, same⟩ := ofValue?_exact.2 form whole ordered read
  obtain ⟨-, sameInner⟩ := ofValue?_exact.2 inner removal orderedInner readInner
  have written : removal.toValue = inner := rfl
  refine ⟨⟨ordered, read, again, fun canonical => ?_⟩, orderedInner, readInner, written,
    sameInner.1 written⟩
  exact (same.1 canonical).get?_name_ne_null rfl

end Action

end StateSlice
