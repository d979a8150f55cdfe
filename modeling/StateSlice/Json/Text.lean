import StateSlice.Json.Document
import StateSlice.Json.Double.Shortest

/-!
# The compact text of a value

A value is written without blanks, the entries of an object in their order. In a string the
quotation mark, the backslash and the control characters below the space are escaped, and nothing
else is.
-/
namespace StateSlice.Json

namespace Text

/-- A hexadecimal digit in lower case. -/
def hexDigit (value : Nat) : Char := Nat.digitChar (value % 16)

/-- A character inside a string. -/
def escape (c : Char) : List Char :=
  match c with
  | '"' => ['\\', '"']
  | '\\' => ['\\', '\\']
  | '\x08' => ['\\', 'b']
  | '\t' => ['\\', 't']
  | '\n' => ['\\', 'n']
  | '\x0c' => ['\\', 'f']
  | '\r' => ['\\', 'r']
  | c =>
    if c < ' ' then ['\\', 'u', '0', '0', hexDigit (c.toNat / 16), hexDigit c.toNat] else [c]

/-- A string between quotation marks. -/
def quoted (text : String) : String :=
  String.ofList ('"' :: text.toList.flatMap escape ++ ['"'])

end Text

/-- The text of a number. -/
def Number.text : Number → String
  | .int value => toString value
  | .double bits => Double.text bits

namespace Value

mutual
/-- The compact text of a value. -/
def text : Value → String
  | .null => "null"
  | .bool value => if value then "true" else "false"
  | .number value => value.text
  | .string value => Text.quoted value
  | .array items => "[" ++ ",".intercalate (itemTexts items) ++ "]"
  | .object entries => "\x7b" ++ ",".intercalate (entryTexts entries) ++ "\x7d"

/-- The texts of the items. -/
def itemTexts : List Value → List String
  | [] => []
  | item :: items => item.text :: itemTexts items

/-- The texts of the entries. -/
def entryTexts : List (String × Value) → List String
  | [] => []
  | (name, value) :: entries => (Text.quoted name ++ ":" ++ value.text) :: entryTexts entries
end

end Value

end StateSlice.Json
