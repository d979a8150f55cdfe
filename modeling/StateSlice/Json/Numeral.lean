import StateSlice.Json.Double
import StateSlice.Json.Value

/-!
# Decimal numerals

A numeral is the text of a number taken apart: sign, digits before and after the point, exponent.
`Numeral.number?` is its value. Digits are read into a 64-bit word; those that no longer fit count
as a power of ten before the point and not at all after it. The word is rounded to a double and
scaled by one power of ten, which is itself rounded, so a numeral may read as a neighbour of the
closest double. A numeral beyond the greatest double has no value.
-/
namespace StateSlice.Json

/-- A numeral, as written. -/
structure Numeral where
  /-- Whether a minus sign stands in front. -/
  negative : Bool
  /-- The digits before the point. -/
  integer : List Nat
  /-- The digits after the point; none if there is no point. -/
  fraction : List Nat
  /-- The sign (whether negative) and the digits of the exponent, if there is one. -/
  exponent : Option (Bool × List Nat)

namespace Numeral

/-- Read digits while the sum fits a 64-bit word, returning the digits that remain. -/
def accumulate (sum : Nat) : List Nat → Nat × List Nat
  | [] => (sum, [])
  | digit :: rest =>
    if sum * 10 + digit < UInt64.size then accumulate (sum * 10 + digit) rest
    else (sum, digit :: rest)

/-- The number that digits denote, of any size. -/
def ofDigits (digits : List Nat) : Nat := digits.foldl (fun sum digit => sum * 10 + digit) 0

/-- The magnitude of a word scaled by a power of ten, if it is finite. A power below the least
double is split, and a word scaled beyond the square of the greatest one vanishes. -/
def scaledWord? (word : Nat) (power : Int) : Option Nat :=
  let start := Double.nearest word 1
  if word = 0 ∨ power < -616 then some 0
  else if power < -308 then
    some (Double.divide (Double.divide start (Double.powerOfTen 308))
      (Double.powerOfTen (-power - 308).toNat))
  else if power < 0 then some (Double.divide start (Double.powerOfTen (-power).toNat))
  else if power ≤ 308 then
    let product := Double.multiply start (Double.powerOfTen power.toNat)
    if product < Double.limit then some product else none
  else none

/-- The greatest exponent that is read as written; a greater one counts as infinite. -/
def maxExponent : Nat := 2147483647

/-- How far below zero an integer may lie; a lesser one is a double. -/
def depthOfIntegers : Nat := 1 <<< 63

/-- The integer of a word with a sign. A negative zero is a double. -/
def signedWord (negative : Bool) (word : Nat) : Number :=
  if !negative then .int word
  else if word = 0 ∨ depthOfIntegers < word then .double (Double.bits true (Double.nearest word 1))
  else .int (-Int.ofNat word)

/-- The magnitude of a numeral that is not an integer of a word. -/
def magnitude? (numeral : Numeral) : Option Nat :=
  let (whole, ignored) := accumulate 0 numeral.integer
  let (word, unread) := accumulate whole numeral.fraction
  let shift := Int.ofNat (ignored.length + unread.length) - Int.ofNat numeral.fraction.length
  match numeral.exponent with
  | none => scaledWord? word shift
  | some (negative, digits) =>
    let exponent := ofDigits digits
    if maxExponent < exponent then if word = 0 ∨ negative then some 0 else none
    else scaledWord? word (if negative then shift - exponent else shift + exponent)

/-- The value of a numeral, unless it lies beyond the greatest double. -/
def number? (numeral : Numeral) : Option Number :=
  match accumulate 0 numeral.integer, numeral.fraction, numeral.exponent with
  | (word, []), [], none => some (signedWord numeral.negative word)
  | _, _, _ => numeral.magnitude?.map fun magnitude =>
    .double (Double.bits numeral.negative magnitude)

end Numeral

end StateSlice.Json
