import StateSlice.Json.Numeral

/-!
# JSON documents

A document is JSON text taken apart before it has a meaning: the fields of an object are in the
order of the text, and a name may repeat. A numeral beyond the greatest double and a string with an
unpaired surrogate are part of a document but have no value, so a reader that skips a field is not
disturbed by them. `Value.parse?` reads a whole text as a value: every part must have a value, the
last of repeated names wins, and no more than `Document.maxDepth` arrays and objects may be open at
once.
-/
namespace StateSlice.Json

/-- JSON text taken apart. -/
inductive Document
  | null
  | bool (value : Bool)
  | number (value : Option Number)
  | string (text : Option String)
  | array (items : List Document)
  | object (fields : List (Option String × Document))

namespace Reader

/-- Whether JSON allows the character between tokens. -/
def isBlank (c : Char) : Bool := c == ' ' || c == '\n' || c == '\t' || c == '\r'

/-- The text after its leading blanks. -/
def skipBlank (text : List Char) : List Char := text.dropWhile isBlank

/-- The value of a hexadecimal digit. -/
def hexDigit? (c : Char) : Option Nat :=
  if '0' ≤ c ∧ c ≤ '9' then some (c.toNat - '0'.toNat)
  else if 'a' ≤ c ∧ c ≤ 'f' then some (c.toNat - 'a'.toNat + 10)
  else if 'A' ≤ c ∧ c ≤ 'F' then some (c.toNat - 'A'.toNat + 10)
  else none

/-- A part of the text of a string: a character, or an escaped 16-bit unit. -/
inductive Piece
  | char (c : Char)
  | unit (value : Nat)

/-- The character of an escape of two characters. -/
def escaped? : Char → Option Char
  | '"' => some '"'
  | '\\' => some '\\'
  | '/' => some '/'
  | 'b' => some '\x08'
  | 'f' => some '\x0c'
  | 'n' => some '\n'
  | 'r' => some '\r'
  | 't' => some '\t'
  | _ => none

/-- The pieces up to the closing quotation mark, and the text after it. -/
def pieces : List Char → Option (List Piece × List Char)
  | [] => none
  | '"' :: rest => some ([], rest)
  | '\\' :: 'u' :: a :: b :: c :: d :: rest => do
    let high := (← hexDigit? a) * 16 + (← hexDigit? b)
    let low := (← hexDigit? c) * 16 + (← hexDigit? d)
    let unit := high * 256 + low
    let (found, rest) ← pieces rest
    some (.unit unit :: found, rest)
  | '\\' :: c :: rest => do
    let char ← escaped? c
    let (found, rest) ← pieces rest
    some (.char char :: found, rest)
  | c :: rest =>
    if c < ' ' then none
    else do
      let (found, rest) ← pieces rest
      some (.char c :: found, rest)

/-- The characters of pieces, unless a surrogate is unpaired. -/
def join : List Piece → Option (List Char)
  | [] => some []
  | .char c :: rest => (join rest).map (c :: ·)
  | .unit high :: rest =>
    if high < 0xd800 ∨ 0xdfff < high then (join rest).map (Char.ofNat high :: ·)
    else match rest with
      | .unit low :: rest =>
        if high < 0xdc00 ∧ 0xdc00 ≤ low ∧ low ≤ 0xdfff then
          (join rest).map (Char.ofNat (0x10000 + (high - 0xd800) * 0x400 + (low - 0xdc00)) :: ·)
        else none
      | _ => none

/-- The text of a string whose opening quotation mark is read. -/
def stringBody (text : List Char) : Option (Option String × List Char) := do
  let (found, rest) ← pieces text
  some ((join found).map String.ofList, rest)

/-- The leading digits, and the text after them. -/
def digits (text : List Char) : List Nat × List Char :=
  ((text.takeWhile Char.isDigit).map (·.toNat - '0'.toNat), text.dropWhile Char.isDigit)

/-- At least one digit. -/
def digits? (text : List Char) : Option (List Nat × List Char) :=
  match digits text with
  | ([], _) => none
  | found => some found

/-- The digits before the point: no further digit follows a leading zero. -/
def integer? (text : List Char) : Option (List Nat × List Char) :=
  match digits? text with
  | some (0 :: _ :: _, _) => none
  | found => found

/-- The digits after a point, if there is one. -/
def fraction? : List Char → Option (List Nat × List Char)
  | '.' :: rest => digits? rest
  | text => some ([], text)

/-- The sign and the digits of an exponent whose mark is read. -/
def exponentBody? (text : List Char) : Option (Option (Bool × List Nat) × List Char) := do
  let (negative, rest) := match text with
    | '+' :: rest => (false, rest)
    | '-' :: rest => (true, rest)
    | rest => (false, rest)
  let (found, rest) ← digits? rest
  some (some (negative, found), rest)

/-- The exponent, if there is one. -/
def exponent? : List Char → Option (Option (Bool × List Nat) × List Char)
  | 'e' :: rest | 'E' :: rest => exponentBody? rest
  | text => some (none, text)

/-- A numeral at the front of the text. -/
def numeral? (text : List Char) : Option (Numeral × List Char) := do
  let (negative, rest) := match text with
    | '-' :: rest => (true, rest)
    | rest => (false, rest)
  let (integer, rest) ← integer? rest
  let (fraction, rest) ← fraction? rest
  let (exponent, rest) ← exponent? rest
  some (⟨negative, integer, fraction, exponent⟩, rest)

mutual
/-- A document at the front of the text, and the text after it. -/
def document? : (fuel : Nat) → List Char → Option (Document × List Char)
  | 0, _ => none
  | fuel + 1, text =>
    match skipBlank text with
    | 'n' :: 'u' :: 'l' :: 'l' :: rest => some (.null, rest)
    | 't' :: 'r' :: 'u' :: 'e' :: rest => some (.bool true, rest)
    | 'f' :: 'a' :: 'l' :: 's' :: 'e' :: rest => some (.bool false, rest)
    | '"' :: rest => do
      let (string, rest) ← stringBody rest
      some (.string string, rest)
    | '[' :: rest =>
      match skipBlank rest with
      | ']' :: rest => some (.array [], rest)
      | rest => do
        let (items, rest) ← items? fuel rest
        some (.array items, rest)
    | '{' :: rest =>
      match skipBlank rest with
      | '}' :: rest => some (.object [], rest)
      | rest => do
        let (fields, rest) ← fields? fuel rest
        some (.object fields, rest)
    | rest => do
      let (numeral, rest) ← numeral? rest
      some (.number numeral.number?, rest)

/-- At least one item of an array, up to its end. -/
def items? : (fuel : Nat) → List Char → Option (List Document × List Char)
  | 0, _ => none
  | fuel + 1, text => do
    let (item, rest) ← document? fuel text
    match skipBlank rest with
    | ',' :: rest => do
      let (items, rest) ← items? fuel rest
      some (item :: items, rest)
    | ']' :: rest => some ([item], rest)
    | _ => none

/-- At least one field of an object, up to its end. -/
def fields? : (fuel : Nat) → List Char → Option (List (Option String × Document) × List Char)
  | 0, _ => none
  | fuel + 1, text =>
    match skipBlank text with
    | '"' :: rest => do
      let (name, rest) ← stringBody rest
      match skipBlank rest with
      | ':' :: rest => do
        let (value, rest) ← document? fuel rest
        match skipBlank rest with
        | ',' :: rest => do
          let (fields, rest) ← fields? fuel rest
          some ((name, value) :: fields, rest)
        | '}' :: rest => some ([(name, value)], rest)
        | _ => none
      | _ => none
    | _ => none
end

end Reader

namespace Document

/-- The most arrays and objects that may be open at once. -/
def maxDepth : Nat := 127

/-- The document that is the whole text. Every step takes a character or is the first at its
character, so twice the length of the text is fuel enough. -/
def parse? (text : String) : Option Document := do
  let (document, rest) ← Reader.document? (2 * text.length + 2) text.toList
  if (Reader.skipBlank rest).isEmpty then some document else none

mutual
/-- The most arrays and objects that are open at once. -/
def depth : Document → Nat
  | .array items => depthItems items + 1
  | .object fields => depthFields fields + 1
  | _ => 0

/-- The greatest depth of the items. -/
def depthItems : List Document → Nat
  | [] => 0
  | item :: items => max item.depth (depthItems items)

/-- The greatest depth of the fields. -/
def depthFields : List (Option String × Document) → Nat
  | [] => 0
  | (_, value) :: fields => max value.depth (depthFields fields)
end

mutual
/-- The value of a document, if each of its parts has one. -/
def value? : Document → Option Value
  | .null => some .null
  | .bool value => some (.bool value)
  | .number value => value.map .number
  | .string text => text.map .string
  | .array items => (values? items).map .array
  | .object fields => (entries? fields).map fun entries => .object (Entries.ofList entries)

/-- The values of the items. -/
def values? : List Document → Option (List Value)
  | [] => some []
  | item :: items => do
    let value ← item.value?
    let values ← values? items
    some (value :: values)

/-- The names and values of the fields, in the order of the text. -/
def entries? : List (Option String × Document) → Option (List (String × Value))
  | [] => some []
  | (name, field) :: fields => do
    let name ← name
    let value ← field.value?
    let entries ← entries? fields
    some ((name, value) :: entries)
end

end Document

/-- The value that is the whole text. -/
def Value.parse? (text : String) : Option Value := do
  let document ← Document.parse? text
  if document.depth ≤ Document.maxDepth then document.value? else none

end StateSlice.Json
