/-!
# Shortest decimals of doubles

A positive double is `mantissa * 2 ^ exponent`. The reals that round to it form
an interval around it, whose ends lie halfway to its two neighbours and belong
to it exactly if the mantissa is even. Its shortest decimal is found on coarser
and finer decimal grids: on the coarsest grid that has a point in the interval,
the point nearest to the double is taken, and the upper one of two equally near
points. Only the two grid points around the double have to be looked at,
because an interval that contains a grid point contains one of these.

Everything is compared exactly, in natural numbers.
-/

namespace RootTrace

/-- The decimal number `digits * 10 ^ exponent`. -/
structure Decimal where
  /-- Significant digits, read as a natural number. -/
  digits : Nat
  /-- Power of ten of the last digit. -/
  exponent : Int
  deriving DecidableEq

namespace Decimal

/-- The interval of a positive double against a decimal grid. Grid point `d`
lies at `d * cell`, on the scale on which the three numbers of the interval are
given. -/
structure Window where
  /-- Lower end. -/
  low : Nat
  /-- The double itself. -/
  value : Nat
  /-- Upper end. -/
  high : Nat
  /-- Whether the ends belong to the interval. -/
  closed : Bool
  /-- Distance of neighbouring grid points. -/
  cell : Nat

/-- The window of `mantissa * 2 ^ exponent` on the grid of the multiples of
`10 ^ grid`. The scale is a quarter of the unit in the last place, because the
gap below a power of two is half as wide as the gap above it. -/
def window (mantissa : Nat) (exponent grid : Int) : Window :=
  let narrowBelow := mantissa = 4503599627370496 ∧ -1074 < exponent
  let unit := Nat.pow 2 (exponent - 2).toNat * Nat.pow 10 (-grid).toNat
  { low := (if narrowBelow then 4 * mantissa - 1 else 4 * mantissa - 2) * unit
    value := 4 * mantissa * unit
    high := (4 * mantissa + 2) * unit
    closed := mantissa % 2 = 0
    cell := Nat.pow 2 (2 - exponent).toNat * Nat.pow 10 grid.toNat }

/-- Whether a grid point lies in the interval. -/
def Window.contains (w : Window) (point : Nat) : Bool :=
  if w.closed then
    decide (w.low ≤ point * w.cell ∧ point * w.cell ≤ w.high)
  else
    decide (w.low < point * w.cell ∧ point * w.cell < w.high)

/-- The grid point of the interval that is nearest to the double, the upper one
of two equally near points. -/
def Window.nearest? (w : Window) : Option Nat :=
  let below := w.value / w.cell
  match w.contains below, w.contains (below + 1) with
  | true, true =>
      if 2 * w.value < (2 * below + 1) * w.cell then some below else some (below + 1)
  | true, false => some below
  | false, true => some (below + 1)
  | false, false => none

/-- The least power of ten above a positive double. The binary logarithm gives
it up to four candidates. -/
def powerAbove (mantissa : Nat) (exponent : Int) : Int :=
  let estimate := (mantissa.log2 + exponent) * 30103 / 100000 - 1
  let candidates := [estimate, estimate + 1, estimate + 2]
  (candidates.find? fun grid =>
    let w := window mantissa exponent grid
    w.value < w.cell).getD (estimate + 3)

/-- Move trailing zeros of the digits into the exponent. -/
def stripZeros (digits : Nat) (exponent : Int) : Decimal :=
  if digits ≠ 0 ∧ digits % 10 = 0 then
    stripZeros (digits / 10) (exponent + 1)
  else
    ⟨digits, exponent⟩
termination_by digits
decreasing_by omega

/-- The value of a double, digit for digit. -/
def exact (mantissa : Nat) (exponent : Int) : Decimal :=
  ⟨mantissa * Nat.pow 2 exponent.toNat * Nat.pow 5 (-exponent).toNat, min exponent 0⟩

/-- The shortest decimal that rounds to a positive double. Seventeen digits
always suffice to tell a double apart. -/
def shortest (mantissa : Nat) (exponent : Int) : Decimal :=
  let top := powerAbove mantissa exponent
  let found := (List.range 17).findSome? fun (count : Nat) =>
    let grid := top - (count + 1)
    (window mantissa exponent grid).nearest?.map fun point => stripZeros point grid
  found.getD (exact mantissa exponent)

end Decimal
end RootTrace
