import StateSlice.Json.Text
import StateSlice.Text.Printable
import StateSlice.Validator

/-!
# The text of a structure

A structure is shown on one line for those who look for a mistake in it: constructors with the names
of their fields, lists in brackets, strings between quotation marks. What is deferred is not
produced to be shown, and functions are not shown.
-/
namespace StateSlice

open Json (Value)

namespace Text

/-- A character inside a shown string: those that do not show by themselves are escaped. -/
def shownChar (c : Char) : List Char :=
  match c with
  | '\x00' => ['\\', '0']
  | '\t' => ['\\', 't']
  | '\r' => ['\\', 'r']
  | '\n' => ['\\', 'n']
  | '"' => ['\\', '"']
  | '\\' => ['\\', '\\']
  | c =>
    if isShown c then [c] else '\\' :: 'u' :: '\x7b' :: Nat.toDigits 16 c.toNat ++ ['\x7d']

/-- A string as it is shown. -/
def shownString (text : String) : String :=
  String.ofList ('"' :: text.toList.flatMap shownChar ++ ['"'])

/-- Texts in a row, with commas between them. -/
def row (texts : List String) : String := ", ".intercalate texts

/-- A constructor with named fields. -/
def record (name : String) (fields : List (String × String)) : String :=
  name ++ " \x7b " ++ row (fields.map fun (field, text) => field ++ ": " ++ text) ++ " \x7d"

/-- What may be missing. -/
def optional : Option String → String
  | some text => "Some(" ++ text ++ ")"
  | none => "None"

end Text

namespace Json.Value

mutual
/-- A value as it is shown. -/
def shown : Value → String
  | .null => "Null"
  | .bool value => "Bool(" ++ (if value then "true" else "false") ++ ")"
  | .number value => "Number(" ++ value.text ++ ")"
  | .string text => "String(" ++ Text.shownString text ++ ")"
  | .array items => "Array [" ++ Text.row (shownItems items) ++ "]"
  | .object entries => "Object \x7b" ++ Text.row (shownEntries entries) ++ "\x7d"

/-- Items as they are shown. -/
def shownItems : List Value → List String
  | [] => []
  | item :: items => item.shown :: shownItems items

/-- Entries as they are shown. -/
def shownEntries : List (String × Value) → List String
  | [] => []
  | (name, value) :: entries =>
    (Text.shownString name ++ ": " ++ value.shown) :: shownEntries entries
end

end Json.Value

/-- A kind as it is shown. -/
def Kind.shown : Kind → String
  | .string => "String"
  | .number => "Number"
  | .boolean => "Boolean"
  | .any => "Any"

/-- A validator as it is shown. -/
def Validator.shown : Validator → String
  | .ofKind kind => "Kind(" ++ kind.shown ++ ")"
  | .ofCheck _ => "Custom(<fn>)"

/-- A declared default as it is shown. -/
def Text.shownDefault (explicit : Option Value) : String × String :=
  ("default", Text.optional (explicit.map (·.shown)))

mutual
/-- A node as it is shown. -/
def Node.shown : Node → String
  | .scalar kind explicit =>
    Text.record "Primitive" [("kind", kind.shown), Text.shownDefault explicit]
  | .custom check message explicit =>
    Text.record "Custom" [("validator", (Validator.ofCheck check).shown),
      ("error_message", Text.shownString message), Text.shownDefault explicit]
  | .shape children wildcard explicit =>
    Text.record "Shape" [("children", "[" ++ Text.row (Node.shownChildren children) ++ "]"),
      ("wildcard", Node.shownWildcard wildcard), Text.shownDefault explicit]
  | .arrayOf element explicit =>
    Text.record "ArrayOf" [("element", element.shown), Text.shownDefault explicit]
  | .boundary inner => Text.record "Reducer" [("wrapped", inner.shown)]

/-- The children of a shape as they are shown. -/
def Node.shownChildren : List (String × Structure) → List String
  | [] => []
  | (name, child) :: children =>
    ("(" ++ Text.shownString name ++ ", " ++ child.shown ++ ")") :: Node.shownChildren children

/-- The wildcard of a shape as it is shown. -/
def Node.shownWildcard : Option Structure → String
  | some wildcard => Text.optional (some wildcard.shown)
  | none => Text.optional none

/-- A structure as it is shown. -/
def Structure.shown : Structure → String
  | .ready node => node.shown
  | .deferred _ => "Structure(<deferred>)"
end

end StateSlice
