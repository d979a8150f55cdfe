import StateSlice.Json.Double

/-!
# The shortest text of a double

A double is written with the fewest digits that read back as the same double, and with the closest
such digits to its exact value. The reals that round to a double form an interval around it, with
its ends if the significand is even. On the grid of decimals with a given number of digits only the
two neighbours of the exact value need a test, so the first grid with a neighbour inside the
interval gives the digits. The text is positional for a decimal exponent from -5 to 15, with at
least one digit after the point, and scientific otherwise.
-/
namespace StateSlice.Json.Double

/-- The reals that round to a double, and its exact value, each a numerator over one denominator. -/
structure Neighbourhood where
  /-- The lower end. -/
  low : Nat
  /-- The exact value. -/
  exact : Nat
  /-- The upper end. -/
  high : Nat
  /-- The common denominator. -/
  denominator : Nat
  /-- Whether the ends themselves round to the double. -/
  closed : Bool

/-- The interval around a positive magnitude, in quarters of its last binary place. -/
def neighbourhood (magnitude : Nat) : Neighbourhood :=
  let whole := significand magnitude
  let power := scale magnitude - 2
  let narrow := whole = unit ∧ 2 * unit ≤ magnitude
  let factor := (scaled 1 1 power).1
  { low := (if narrow then 4 * whole - 1 else 4 * whole - 2) * factor
    exact := 4 * whole * factor
    high := (4 * whole + 2) * factor
    denominator := (scaled 1 1 power).2
    closed := whole % 2 = 0 }

/-- Whether a quotient lies in the interval. -/
def Neighbourhood.contains (around : Neighbourhood) (numerator denominator : Nat) : Bool :=
  let point := numerator * around.denominator
  if around.closed then
    decide (around.low * denominator ≤ point) && decide (point ≤ around.high * denominator)
  else decide (around.low * denominator < point) && decide (point < around.high * denominator)

/-- A decimal `digits * 10 ^ exponent`. -/
structure Decimal where
  /-- The digits, read as one number. -/
  digits : Nat
  /-- The power of ten that scales them. -/
  exponent : Int

/-- A decimal as a quotient. -/
def Decimal.quotient (decimal : Decimal) : Nat × Nat :=
  if 0 ≤ decimal.exponent then (decimal.digits * Nat.pow 10 decimal.exponent.toNat, 1)
  else (decimal.digits, Nat.pow 10 (-decimal.exponent).toNat)

/-- The closest to the exact value among its two neighbours on the grid of multiples of
`10 ^ exponent` that lie in the interval; the even one of two equally close. -/
def Neighbourhood.onGrid? (around : Neighbourhood) (exponent : Int) : Option Decimal :=
  let (tens, parts) := Decimal.quotient ⟨1, exponent⟩
  let step := tens * around.denominator
  let target := around.exact * parts
  let below := target / step
  let isInside (digits : Nat) := around.contains (digits * tens) parts
  let distanceBelow := target - below * step
  let distanceAbove := (below + 1) * step - target
  let preferBelow := distanceBelow < distanceAbove ∨
    (distanceBelow = distanceAbove ∧ below % 2 = 0)
  match isInside below, isInside (below + 1) with
  | true, true => some ⟨if preferBelow then below else below + 1, exponent⟩
  | true, false => some ⟨below, exponent⟩
  | false, true => some ⟨below + 1, exponent⟩
  | false, false => none

/-- The exponent of the first decimal digit of a positive quotient, searched upwards from a
lower bound. -/
def decimalOrder (numerator denominator : Nat) : (attempts : Nat) → (start : Int) → Int
  | 0, start => start
  | attempts + 1, start =>
    let (tens, parts) := Decimal.quotient ⟨1, start + 1⟩
    if tens * denominator ≤ numerator * parts then
      decimalOrder numerator denominator attempts (start + 1)
    else start

/-- The shortest decimal in the interval around a positive magnitude. -/
def shortest (magnitude : Nat) : Decimal :=
  let around := neighbourhood magnitude
  let order := binaryOrder around.exact around.denominator
  let start := order * 1233 / 4096 - 1
  let first := decimalOrder around.exact around.denominator 4 start
  ((List.range 17).findSome? fun extra => around.onGrid? (first - Int.ofNat extra)).getD ⟨0, 0⟩

/-- The digits of a number, without its trailing zeros. -/
def trimmedDigits (digits : Nat) : List Char :=
  ((Nat.toDigits 10 digits).reverse.dropWhile (· == '0')).reverse

/-- Zeros. -/
def zeros (count : Nat) : List Char := List.replicate count '0'

/-- A decimal in positional or scientific form. -/
def Decimal.text (decimal : Decimal) : List Char :=
  let digits := trimmedDigits decimal.digits
  let order := decimal.exponent + Int.ofNat (Nat.toDigits 10 decimal.digits).length - 1
  if -5 ≤ order ∧ order < 0 then '0' :: '.' :: zeros ((-order).toNat - 1) ++ digits
  else if 0 ≤ order ∧ order ≤ 15 then
    let whole := order.toNat + 1
    if digits.length ≤ whole then digits ++ zeros (whole - digits.length) ++ ['.', '0']
    else digits.take whole ++ '.' :: digits.drop whole
  else
    let exponent := (toString order).toList
    match digits with
    | [digit] => digit :: 'e' :: (if 0 ≤ order then '+' :: exponent else exponent)
    | digit :: rest =>
      digit :: '.' :: rest ++ 'e' :: (if 0 ≤ order then '+' :: exponent else exponent)
    | [] => []

/-- The text of a double given by its bits. -/
def text (bits : UInt64) : String :=
  let body := if magnitude bits = 0 then ['0', '.', '0'] else (shortest (magnitude bits)).text
  String.ofList (if isNegative bits then '-' :: body else body)

end StateSlice.Json.Double
