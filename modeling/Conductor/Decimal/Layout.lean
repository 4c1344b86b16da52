import Conductor.Decimal.Shortest
/-!
# Decimal — written forms of binary64 numbers

Three written forms share the shortest digits. A JSON number keeps at least
one decimal and turns to scientific notation outside `1e-5 ≤ |x| < 1e16`. A
plain number is always positional and keeps no decimal that it does not need.
A fixed number has a given count of decimals, rounded from the exact value, a
tie to the even digit.
-/

namespace Conductor

namespace Decimal

/-- `n` zeros. -/
def zeros (n : Nat) : String :=
  String.ofList (List.replicate n '0')

/-- Digits with the decimal point after the first `point` of them; a point
that lies outside the digits is reached over zeros. No digit follows the
point when the number is whole. -/
def positional (digits : String) (point : Int) : String × String :=
  let n : Int := digits.length
  if point ≤ 0 then ("0", zeros (-point).toNat ++ digits)
  else if n ≤ point then (digits ++ zeros (point - n).toNat, "")
  else (String.ofList (digits.toList.take point.toNat), String.ofList (digits.toList.drop point.toNat))

/-- How numbers of one format are written. -/
structure Layout where
  /-- The decimal point positions, counted from the first digit, at which the
  notation is positional. -/
  isPositional : Int → Bool
  /-- Whether a whole number is written with the decimal `.0`. -/
  keepsDecimal : Bool
  /-- Which decimal is chosen of two that are equally near. -/
  tie : Tie
  infinity : String
  notANumber : String

/-- The layout of JSON numbers. JSON has no infinite numbers. -/
def Layout.json : Layout :=
  ⟨fun point => -5 < point ∧ point ≤ 16, true, .even, "null", "null"⟩

/-- The layout of numbers in messages. -/
def Layout.plain : Layout :=
  ⟨fun _ => true, false, .up, "inf", "NaN"⟩

/-- The written magnitude of a decimal. -/
def Layout.writeDecimal (l : Layout) (x : Scientific) : String :=
  let digits := toString x.digits
  let point : Int := digits.length + x.exponent
  if l.isPositional point then
    match positional digits point with
    | (whole, "") => if l.keepsDecimal then whole ++ ".0" else whole
    | (whole, decimals) => whole ++ "." ++ decimals
  else
    let exponent := point - 1
    let mark := if exponent < 0 then "e-" else "e+"
    let first := String.ofList (digits.toList.take 1)
    let others := String.ofList (digits.toList.drop 1)
    let mantissa := if others.isEmpty then first else first ++ "." ++ others
    mantissa ++ mark ++ toString exponent.natAbs

/-- The written form of a number in a layout. -/
def Layout.write (l : Layout) (x : Binary64) : String :=
  if x.isNaN then l.notANumber
  else
    let sign := if x.isNegative then "-" else ""
    if !x.isFinite then sign ++ l.infinity
    else if x.magnitudeBits = 0 then sign ++ (if l.keepsDecimal then "0.0" else "0")
    else sign ++ l.writeDecimal (shortest l.tie x.magnitudeBits)

/-- A finite number that is not negative, rounded to `places` decimals. -/
def fixed (places : Nat) (x : Binary64) : String :=
  let parts := Nat.pow 10 places
  let scaled := nearestEven (x.units * parts) Binary64.one
  let digits := toString (scaled % parts)
  toString (scaled / parts) ++ "." ++ zeros (places - digits.length) ++ digits

end Decimal

end Conductor
