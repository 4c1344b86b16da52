import Conductor.Decimal.Binary64
/-!
# Decimal — numbers from digits and an exponent

The reader of JSON numbers does not look for the number nearest to a decimal. It
takes the digits as one number of the format and the power of ten as another,
and multiplies or divides once, so what it reads may be some units in the last
place away from the decimal that is written. A product that is too large for the
format is an error; a quotient that is too small is zero.
-/

namespace Conductor

namespace Binary64

/-- The exponent of the largest power of ten that is finite. -/
def maxPower : Nat := 308

/-- A power of ten, rounded to the format. -/
def powerOfTen (n : Nat) : Binary64 := ofNat (Nat.pow 10 n)

/-- Divides a finite number that is not negative by a power of ten, in as many
steps as the format needs. -/
def scaleDown (x : Binary64) (n : Nat) : Binary64 :=
  if n ≤ maxPower then x.div (powerOfTen n)
  else if x.units = 0 then x
  else scaleDown (x.div (powerOfTen maxPower)) (n - maxPower)
termination_by n
decreasing_by
  simp only [maxPower] at *
  omega

/-- The magnitude that is read for `digits * 10 ^ exponent`, unless it is too large. -/
def magnitudeOfParts? (digits : Nat) (exponent : Int) : Option Binary64 :=
  let x := ofNat digits
  if exponent < 0 then some (x.scaleDown exponent.natAbs)
  else if exponent ≤ maxPower then
    let y := x.mul (powerOfTen exponent.natAbs)
    if y.isFinite then some y else none
  else if x.units = 0 then some x
  else none

/-- The number that is read, with its sign. -/
def ofParts? (negative : Bool) (digits : Nat) (exponent : Int) : Option Binary64 :=
  (magnitudeOfParts? digits exponent).map fun y => ofSign negative y.magnitudeBits

end Binary64

end Conductor
