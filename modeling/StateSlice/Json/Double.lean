/-!
# Finite doubles

A double that is not negative is written here as its bits read as a number, its *magnitude*: of two
magnitudes the greater is the greater double, and those below `Double.limit` are the finite ones.
A magnitude stands for `significand * 2 ^ scale`. All arithmetic is on natural numbers: `nearest`
rounds a quotient to the closest double, and to the one with an even significand when two are
equally close.
-/
namespace StateSlice.Json.Double

/-- The least significand with all its bits, and the weight of the exponent in a magnitude. -/
def unit : Nat := 1 <<< 52

/-- The first magnitude that is not finite. -/
def limit : Nat := 2047 * unit

/-- The bit that marks a negative double. -/
def signBit : Nat := 1 <<< 63

/-- The integer that a magnitude scales by a power of two. -/
def significand (magnitude : Nat) : Nat :=
  if magnitude < unit then magnitude else unit + magnitude % unit

/-- The power of two that scales the significand of a magnitude. -/
def scale (magnitude : Nat) : Int := Int.ofNat (max 1 (magnitude / unit)) - 1075

/-- A quotient that is scaled by a power of two, again as a quotient. -/
def scaled (numerator denominator : Nat) (power : Int) : Nat × Nat :=
  if 0 ≤ power then (numerator <<< power.toNat, denominator)
  else (numerator, denominator <<< (-power).toNat)

/-- The value of a magnitude as a quotient of natural numbers. -/
def quotient (magnitude : Nat) : Nat × Nat := scaled (significand magnitude) 1 (scale magnitude)

/-- A quotient as the closest natural number, and as the even one of two equally close. -/
def roundToEven (numerator denominator : Nat) : Nat :=
  let floor := numerator / denominator
  let rest := 2 * (numerator % denominator)
  if denominator < rest ∨ (rest = denominator ∧ floor % 2 = 1) then floor + 1 else floor

/-- The greatest power of two that is at most a positive quotient. -/
def binaryOrder (numerator denominator : Nat) : Int :=
  let order := Int.ofNat numerator.log2 - Int.ofNat denominator.log2
  if denominator <<< numerator.log2 ≤ numerator <<< denominator.log2 then order else order - 1

/-- The magnitude of the double closest to a quotient; it reaches `limit` if there is none. -/
def nearest (numerator denominator : Nat) : Nat :=
  if numerator = 0 then 0
  else
    let power := max (-1074) (binaryOrder numerator denominator - 52)
    let (top, bottom) := scaled numerator denominator (-power)
    (power + 1074).toNat * unit + roundToEven top bottom

/-- The magnitude closest to a product. -/
def multiply (left right : Nat) : Nat :=
  nearest ((quotient left).1 * (quotient right).1) ((quotient left).2 * (quotient right).2)

/-- The magnitude closest to a quotient of two magnitudes. -/
def divide (left right : Nat) : Nat :=
  nearest ((quotient left).1 * (quotient right).2) ((quotient left).2 * (quotient right).1)

/-- The magnitude closest to a power of ten. -/
def powerOfTen (exponent : Nat) : Nat := nearest (Nat.pow 10 exponent) 1

/-- The bits of a double from its sign and its magnitude. -/
def bits (negative : Bool) (magnitude : Nat) : UInt64 :=
  UInt64.ofNat (if negative then signBit + magnitude else magnitude)

/-- The magnitude in the bits of a double. -/
def magnitude (bits : UInt64) : Nat := bits.toNat % signBit

/-- Whether the bits are those of a negative double, a negative zero included. -/
def isNegative (bits : UInt64) : Bool := signBit ≤ bits.toNat

end StateSlice.Json.Double
