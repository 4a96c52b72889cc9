/-!
# Structured text values

The values that a structured text can denote. Numbers are kept as they are
written, because whether a number is an integer, and how it is rounded, is only
decided where it is used. The same holds for strings: an escape can name half
of a surrogate pair, and a string in which a half stands alone is well formed
as long as nobody asks for its characters. Members of objects keep their order,
and a key may occur more than once.
-/

namespace RootTrace

/-- A number as it is written, `mantissa * 10 ^ exponent` with a sign. -/
structure Numeral where
  /-- Whether there is a minus sign. -/
  negative : Bool
  /-- All digits in front of the exponent, read as a natural number. -/
  mantissa : Nat
  /-- The power of ten of the last digit. -/
  exponent : Int
  /-- Whether there is neither a fraction nor an exponent. -/
  isInteger : Bool
  deriving DecidableEq

namespace Numeral

/-- The double nearest to a number, of two equally near ones that with an even
mantissa. A zero keeps its sign, as does a number too small for a double; a
number too large has no double. -/
def toFloat? (numeral : Numeral) : Option Float :=
  let magnitude := Float.ofModel (Float.Model.ofScientific numeral.mantissa numeral.exponent)
  if magnitude.isFinite then
    some (if numeral.negative then -magnitude else magnitude)
  else
    none

/-- The natural number that an unsigned integer denotes, if it fits into 64
bits. -/
def toNat? (numeral : Numeral) : Option Nat :=
  if numeral.isInteger && !numeral.negative && decide (numeral.mantissa < 18446744073709551616) then
    some numeral.mantissa
  else
    none

end Numeral

/-- A value of structured text. A string or key without characters to show
holds half of a surrogate pair. -/
inductive Json where
  /-- The absent value. -/
  | null
  /-- A truth value. -/
  | bool (value : Bool)
  /-- A number. -/
  | number (value : Numeral)
  /-- A string. -/
  | string (value : Option String)
  /-- A list of values. -/
  | array (items : List Json)
  /-- Named values in the order in which they are written. -/
  | object (members : List (Option String × Json))

end RootTrace
