import Conductor.Decimal.Binary64
/-!
# Decimal — shortest digits

The shortest decimal of a binary64 number is a decimal with the fewest digits
among those that round to the number, and of these the nearest to it. On the
grid of decimals with a given number of digits only the two neighbours of the
number can be that decimal: when any point of the grid rounds to the number,
one of the two does.

Magnitudes are compared on the common scale of `10 ^ (-1074)`, on which every
finite number is a whole number: a unit is `5 ^ 1074`.
-/

namespace Conductor

namespace Decimal

/-- A decimal without a sign: `digits * 10 ^ exponent`. -/
structure Scientific where
  digits : Nat
  exponent : Int
  deriving DecidableEq

/-- The number of decimal digits of a natural number; zero has one. -/
def width (n : Nat) : Nat :=
  (Nat.toDigits 10 n).length

/-- Moves the zeros at the end of the digits into the exponent. -/
def Scientific.trim (fuel : Nat) (x : Scientific) : Scientific :=
  match fuel with
  | 0 => x
  | fuel + 1 =>
    if x.digits % 10 = 0 ∧ x.digits ≠ 0 then
      Scientific.trim fuel ⟨x.digits / 10, x.exponent + 1⟩
    else x

/-- Which of two decimals equally far from the number stands for it. -/
inductive Tie
  | even
  | up
  deriving DecidableEq

/-- The reals that round to one number: all that lie between the midpoints to
its neighbours, the midpoints themselves when the pattern is even. The ends
are doubled. -/
structure Cell where
  twiceValue : Nat
  twiceLow : Nat
  twiceHigh : Nat
  closed : Bool

/-- The cell of a positive finite magnitude, by its bit pattern. -/
def Cell.ofBits (b : Nat) : Cell :=
  let scale := Nat.pow 5 1074
  let here := Binary64.unitsOfBits b
  ⟨2 * here * scale, (here + Binary64.unitsOfBits (b - 1)) * scale,
    (here + Binary64.unitsOfBits (b + 1)) * scale, b % 2 == 0⟩

/-- The doubled value `v` lies in the cell. -/
def Cell.contains (c : Cell) (v : Nat) : Bool :=
  if c.closed then c.twiceLow ≤ v && v ≤ c.twiceHigh else c.twiceLow < v && v < c.twiceHigh

/-- The answer on the grid of multiples of `10 ^ place`, if the grid has one. -/
def Cell.onGrid? (c : Cell) (tie : Tie) (place : Nat) : Option Scientific :=
  let step := 2 * Nat.pow 10 place
  let below := c.twiceValue / step
  let above := below + 1
  let exponent : Int := (place : Int) - 1074
  let down := c.twiceValue - below * step
  let up := above * step - c.twiceValue
  match c.contains (below * step), c.contains (above * step) with
  | false, false => none
  | true, false => some ⟨below, exponent⟩
  | false, true => some ⟨above, exponent⟩
  | true, true =>
    if down < up then some ⟨below, exponent⟩
    else if up < down then some ⟨above, exponent⟩
    else match tie with
      | .up => some ⟨above, exponent⟩
      | .even => some ⟨below + below % 2, exponent⟩

/-- The first grid with an answer, the numbers of digits tried in increasing
order; seventeen digits always suffice. -/
def Cell.search (c : Cell) (tie : Tie) (total : Nat) : (digits fuel : Nat) → Option Scientific
  | _, 0 => none
  | digits, fuel + 1 =>
    (c.onGrid? tie (total - digits)).or (c.search tie total (digits + 1) fuel)

/-- The shortest decimal of a positive finite magnitude, by its bit pattern. -/
def shortest (tie : Tie) (b : Nat) : Scientific :=
  let c := Cell.ofBits b
  match c.search tie (width (c.twiceValue / 2)) 1 17 with
  | some x => x.trim 20
  | none => ⟨c.twiceValue / 2, -1074⟩

end Decimal

end Conductor
