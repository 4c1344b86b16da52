/-!
# Decimal — binary64 numbers

A binary64 number is its bit pattern, so equality of numbers is equality of
bits: it tells the two zeros apart and identifies a not-a-number with itself.
All arithmetic is exact arithmetic on natural numbers. The magnitude of a
finite number is a whole number of units of `2 ^ (-1074)`, the least positive
number of the format; `Binary64.ofRatio` rounds a quotient of natural
numbers to the nearest member of the format, a tie to the even neighbour.
-/

namespace Conductor

/-- The quotient `a / b` rounded to a whole number, a tie to the even one. -/
def nearestEven (a b : Nat) : Nat :=
  let q := a / b
  let twice := 2 * (a % b)
  if twice < b then q else if b < twice then q + 1 else q + q % 2

/-- A floating-point number of 64 bits. -/
structure Binary64 where
  /-- One sign bit, eleven exponent bits and fifty-two fraction bits. -/
  bits : UInt64
  deriving DecidableEq, Inhabited

namespace Binary64

/-- The number of units in one: the unit is `2 ^ (-1074)`. -/
def one : Nat := Nat.pow 2 1074

/-- The lowest bit of the exponent, `2 ^ 52`. -/
def exponentBit : Nat := 4503599627370496

/-- The bit of the sign, `2 ^ 63`. -/
def signBit : Nat := 9223372036854775808

/-- The pattern of infinity: the exponent bits all set, the fraction zero. -/
def infinityBits : Nat := 2047 * exponentBit

/-- The number with the sign and the magnitude pattern given, the latter below
`signBit`. -/
def ofSign (negative : Bool) (magnitude : Nat) : Binary64 :=
  ⟨UInt64.ofNat ((if negative then signBit else 0) + magnitude)⟩

/-- The bit pattern without its sign. Magnitudes are ordered as these numbers are. -/
def magnitudeBits (x : Binary64) : Nat :=
  x.bits.toNat % signBit

/-- The sign bit is set. -/
def isNegative (x : Binary64) : Bool :=
  x.bits.toNat / signBit == 1

/-- Neither infinite nor a not-a-number. -/
def isFinite (x : Binary64) : Bool :=
  x.magnitudeBits < infinityBits

/-- A pattern with all exponent bits set and a fraction. -/
def isNaN (x : Binary64) : Bool :=
  infinityBits < x.magnitudeBits

/-- The units of the finite magnitude with the pattern `b`: below `exponentBit`
the pattern counts them, above it the leading bit is implied and the exponent
bits shift. -/
def unitsOfBits (b : Nat) : Nat :=
  if b < exponentBit then b
  else (exponentBit + b % exponentBit) * Nat.pow 2 (b / exponentBit - 1)

/-- The magnitude of a finite number, counted in units. -/
def units (x : Binary64) : Nat :=
  unitsOfBits x.magnitudeBits

/-! ## Order

Comparisons follow the order of the reals, with both zeros equal, and are
false as soon as one side is a not-a-number. -/

/-- The signed count of units, infinities beyond all finite numbers. -/
def signed (x : Binary64) : Int :=
  if x.isNegative then -(x.magnitudeBits : Int) else x.magnitudeBits

/-- `x < y` as reals. -/
def lt (x y : Binary64) : Bool :=
  !x.isNaN && !y.isNaN && x.signed < y.signed

/-- Positive zero. -/
def zero : Binary64 := ⟨0⟩

/-- The number one. -/
def unit : Binary64 := ⟨0x3FF0000000000000⟩

/-- `0 < x`. -/
def isPositive (x : Binary64) : Bool := zero.lt x

/-! ## Rounding to the format -/

/-- The member of the format nearest to `num / den`; a tie goes to the even
pattern, and a magnitude beyond the largest finite one becomes infinite. The
leading 53 bits are kept, and the pattern counts the dropped powers of two
above the kept digits, so a carry moves to the next exponent by itself. -/
def ofRatio (negative : Bool) (num den : Nat) : Binary64 :=
  let shift := (num * one / den).log2 - 52
  let kept := nearestEven (num * one) (den * Nat.pow 2 shift)
  ofSign negative (min (shift * exponentBit + kept) infinityBits)

/-- The member of the format nearest to a natural number. -/
def ofNat (n : Nat) : Binary64 := ofRatio false n 1

/-- The member of the format nearest to an integer. -/
def ofInt (i : Int) : Binary64 := ofRatio (i < 0) i.natAbs 1

/-- The member of the format nearest to `digits * 10 ^ exponent`. Exponents so
large or so small that the answer is infinite or zero are not raised to. -/
def ofScientific (negative : Bool) (digits : Nat) (exponent : Int) : Binary64 :=
  if digits = 0 then ofSign negative 0
  else
    let width : Int := (Nat.toDigits 10 digits).length
    if 400 < exponent + width then ofSign negative infinityBits
    else if exponent + width < -400 then ofSign negative 0
    else if 0 ≤ exponent then ofRatio negative (digits * Nat.pow 10 exponent.toNat) 1
    else ofRatio negative digits (Nat.pow 10 (-exponent).toNat)

/-- The rounded product of a finite number that is not negative and a natural number. -/
def mulNat (x : Binary64) (n : Nat) : Binary64 :=
  ofRatio false (x.units * n) one

/-- The rounded sum of two finite numbers that are not negative. -/
def add (x y : Binary64) : Binary64 :=
  ofRatio false (x.units + y.units) one

/-- The rounded product of two finite numbers that are not negative. -/
def mul (x y : Binary64) : Binary64 :=
  ofRatio false (x.units * y.units) (one * one)

/-- The rounded quotient of two finite numbers that are not negative, the second
of them not zero. -/
def div (x y : Binary64) : Binary64 :=
  ofRatio false x.units y.units

/-- The natural number nearest to a finite number that is not negative, a half
going up. -/
def round (x : Binary64) : Nat :=
  (2 * x.units + one) / (2 * one)

end Binary64

end Conductor
