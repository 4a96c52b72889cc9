/-!
# Magnitudes of real scalars

The solver computes with real numbers through the ring operations, division,
order and equality test of their type. This module adds the four further
things that it asks of a real number: its absolute value, the length of the
plane vector with two given coordinates, whether it is a finite number, and
the number that an empty sum of magnitudes stands for.

Every other definition is generic in the scalar. On doubles the operations are
those of binary64 arithmetic, which says for each of them what double it gives.
The length of a plane vector is no such operation. The standard library leaves
its precision unspecified, and platforms differ in the last bit. Of the values
that are allowed this module chooses one: the exact square root of the exact sum
of squares, rounded once.
-/

namespace RootTrace

universe u

/-- Magnitudes and finiteness of a real scalar. -/
class Magnitude (α : Type u) where
  /-- Absolute value. -/
  abs : α → α
  /-- Length of the plane vector with the given coordinates. -/
  hypot : α → α → α
  /-- Whether the scalar is a finite number. -/
  isFinite : α → Bool
  /-- The value of a sum of magnitudes that has no terms. -/
  emptySum : α

namespace Binary64

open Float.Model

/-- The sum of the squares of `m * 2 ^ e` and `n * 2 ^ f`, as a mantissa over
the smaller of the two squared scales. -/
def sumOfSquares (m : Nat) (e : Int) (n : Nat) (f : Int) : Nat × Int :=
  let scale := min e f
  let first := (UnpackedFloat.decreaseExponent m e scale).1
  let second := (UnpackedFloat.decreaseExponent n f scale).1
  (first * first + second * second, 2 * scale)

/-- Length of a plane vector of unpacked doubles. An infinite coordinate wins
over everything else, and after it an indeterminate one. The square root is
taken of the exact sum of squares, so that only the result is rounded. That is a
choice: no more is promised of the length than that it is close to this. -/
def lengthUnpacked : UnpackedFloat → UnpackedFloat → UnpackedFloat
  | .infinity _, _ => .infinity .positive
  | _, .infinity _ => .infinity .positive
  | .notANumber, _ => .notANumber
  | _, .notANumber => .notANumber
  | .zero _, second => second.abs
  | first, .zero _ => first.abs
  | .finite _ m e _, .finite _ n f _ =>
      match sumOfSquares m e n f with
      | (0, _) => .zero .positive
      | (sum + 1, exponent) =>
          UnpackedFloat.sqrt Format.binary64
            (.finite .positive (sum + 1) exponent (Nat.succ_pos sum))

/-- Length of the plane vector with two doubles as coordinates, rounded once. The
standard library does not promise that much: it leaves the precision of this
function unspecified, and on some platforms the last bit is another one. -/
def length (first second : Float) : Float :=
  .ofModel (.pack (lengthUnpacked first.toModel.unpack second.toModel.unpack))

end Binary64

/-- On doubles an empty sum is negative zero, the neutral element of their
addition: adding it changes no double, not even a zero of either sign. -/
instance : Magnitude Float where
  abs := Float.abs
  hypot := Binary64.length
  isFinite := Float.isFinite
  emptySum := -0.0

end RootTrace
