import StateSlice.Action.Basic
import StateSlice.Json.Text

/-!
# The wire form of actions

An action travels as an object with its type and payload, and with an index, a name and further
actions where it has them. It is read from such an object, in which all but the type may be missing
and other fields are ignored, or from an array of the five parts in their order, of which all but
the first may be missing at the end. Text is read more strictly than a value in one respect: a field
of an action may not repeat. In another it is read more leniently: an ignored field need only be
well formed.
-/
namespace StateSlice.Action

open Json (Value Entries Document)

/-- A text in a field. -/
def readText? : Value → Option String
  | .string text => some text
  | _ => none

/-- A missing name, or a text. -/
def readName? : Value → Option (Option String)
  | .null => some none
  | .string text => some (some text)
  | _ => none

/-- A missing index, or an integer of 64 bits without a sign. -/
def readIndex? : Value → Option (Option UInt64)
  | .null => some none
  | .number (.int value) =>
    if 0 ≤ value ∧ value.toNat < UInt64.size then some (some (UInt64.ofNat value.toNat)) else none
  | _ => none

/-- An optional entry. -/
def optionalEntry (name : String) (value : Option Value) : Entries :=
  match value with
  | some value => [(name, value)]
  | none => []

mutual
/-- The wire form of an action. -/
def toValue : Action → Value
  | ⟨type, payload, index, name, actions⟩ =>
    .object <|
      optionalEntry "actions"
        (if actions.isEmpty then none else some (.array (toValues actions))) ++
      optionalEntry "index" (index.map fun index => .number (.int index.toNat)) ++
      optionalEntry "name" (name.map .string) ++
      [("payload", payload), ("type", .string type)]

/-- The wire forms of actions. -/
def toValues : List Action → List Value
  | [] => []
  | action :: actions => action.toValue :: toValues actions
end

/-- Actions are written one by one. -/
theorem toValues_eq_map (actions : List Action) : toValues actions = actions.map toValue := by
  induction actions with
  | nil => simp [toValues]
  | cons action actions hypothesis => simp [toValues, hypothesis]

mutual
/-- The action in a wire form, if it is one. -/
def ofValue? : Value → Option Action
  | .object entries => do
    let type ← (Entries.get? "type" entries).bind readText?
    let index ← ((Entries.get? "index" entries).map readIndex?).getD (some none)
    let name ← ((Entries.get? "name" entries).map readName?).getD (some none)
    let actions ← actionsField? entries
    some ⟨type, (Entries.get? "payload" entries).getD .null, index, name, actions⟩
  | .array [type] => do
    some ⟨← readText? type, .null, none, none, []⟩
  | .array [type, payload] => do
    some ⟨← readText? type, payload, none, none, []⟩
  | .array [type, payload, index] => do
    some ⟨← readText? type, payload, ← readIndex? index, none, []⟩
  | .array [type, payload, index, name] => do
    some ⟨← readText? type, payload, ← readIndex? index, ← readName? name, []⟩
  | .array [type, payload, index, name, actions] => do
    some ⟨← readText? type, payload, ← readIndex? index, ← readName? name, ← actionList? actions⟩
  | _ => none

/-- The actions in the field of that name, none if it is missing. -/
def actionsField? : List (String × Value) → Option (List Action)
  | [] => some []
  | (name, value) :: entries =>
    if name = "actions" then actionList? value else actionsField? entries

/-- The actions in an array of wire forms. -/
def actionList? : Value → Option (List Action)
  | .array items => ofValues? items
  | _ => none

/-- The actions in wire forms. -/
def ofValues? : List Value → Option (List Action)
  | [] => some []
  | value :: values => do
    let action ← ofValue? value
    let actions ← ofValues? values
    some (action :: actions)
end

/-- The names of the fields of an action. -/
def fieldNames : List String := ["type", "payload", "index", "name", "actions"]

mutual
/-- An action's document without its ignored fields, unless a field of it repeats. -/
def relevant? : Document → Option Document
  | .object fields => (relevantFields? [] fields).map .object
  | .array [type, payload, index, name, actions] => do
    some (.array [type, payload, index, name, ← relevantActions? actions])
  | document => some document

/-- The fields of an action other than those already seen, all of them different. -/
def relevantFields? (seen : List String) :
    List (Option String × Document) → Option (List (Option String × Document))
  | [] => some []
  | (name, value) :: fields => do
    let name ← name
    if fieldNames.contains name then
      if seen.contains name then none
      else
        let value ← if name = "actions" then relevantActions? value else some value
        let fields ← relevantFields? (name :: seen) fields
        some ((some name, value) :: fields)
    else relevantFields? seen fields

/-- The document of a list of actions without ignored fields. -/
def relevantActions? : Document → Option Document
  | .array items => (relevantItems? items).map .array
  | document => some document

/-- The documents of actions without ignored fields. -/
def relevantItems? : List Document → Option (List Document)
  | [] => some []
  | item :: items => do
    let item ← relevant? item
    let items ← relevantItems? items
    some (item :: items)
end

/-- The action in a text. -/
def parse? (text : String) : Option Action := do
  let document ← (Document.parse? text).bind relevant?
  if document.depth ≤ Document.maxDepth then document.value?.bind ofValue? else none

/-- A field of a text, with the comma after the fields before it. -/
def optionalField (name : String) (value : Option String) : String :=
  match value with
  | some value => "," ++ Json.Text.quoted name ++ ":" ++ value
  | none => ""

mutual
/-- The wire form as compact text, the fields in the order of their declaration. -/
def text : Action → String
  | ⟨type, payload, index, name, actions⟩ =>
    "\x7b" ++ Json.Text.quoted "type" ++ ":" ++ Json.Text.quoted type ++
      optionalField "payload" (some payload.text) ++
      optionalField "index" (index.map fun index => toString index.toNat) ++
      optionalField "name" (name.map Json.Text.quoted) ++
      optionalField "actions"
        (if actions.isEmpty then none else some ("[" ++ ",".intercalate (texts actions) ++ "]")) ++
      "\x7d"

/-- The texts of actions. -/
def texts : List Action → List String
  | [] => []
  | action :: actions => action.text :: texts actions
end

end StateSlice.Action
