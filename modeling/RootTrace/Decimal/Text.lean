import RootTrace.Decimal.Shortest

/-!
# Doubles as text

A finite double is written with the digits of its shortest decimal, either by
position or with an exponent. By position there is never an exponent and never
a point without digits behind it. With an exponent there is one digit before
the point and no padding. A zero keeps its sign in both forms.
-/

namespace RootTrace
namespace Decimal

/-- The two ways of laying out digits. -/
inductive Layout where
  /-- Digits in their decimal places. -/
  | positional
  /-- One digit before the point, and a power of ten. -/
  | scientific
  deriving DecidableEq

/-- A run of zeros. -/
def zeros (count : Nat) : String :=
  String.ofList (List.replicate count '0')

/-- Digits in their decimal places. -/
def positionalText (value : Decimal) : String :=
  let digits := toString value.digits
  match value.exponent with
  | .ofNat count => digits ++ zeros count
  | .negSucc count =>
      let places := count + 1
      let padded := (zeros (places + 1 - digits.length) ++ digits).toList
      let whole := padded.length - places
      String.ofList (padded.take whole ++ '.' :: padded.drop whole)

/-- One digit, the other digits behind a point, and the power of ten of the
first digit. -/
def scientificText (value : Decimal) : String :=
  let digits := (toString value.digits).toList
  let power := value.exponent + (digits.length - 1 : Nat)
  let fraction := if digits.length ≤ 1 then [] else '.' :: digits.drop 1
  String.ofList (digits.take 1 ++ fraction ++ 'e' :: (toString power).toList)

/-- A decimal in the given layout. -/
def text (layout : Layout) (value : Decimal) : String :=
  match layout with
  | .positional => value.positionalText
  | .scientific => value.scientificText

end Decimal

open Float.Model (UnpackedFloat)

/-- The sign in front of a number. -/
def signText : UnpackedFloat.Sign → String
  | .negative => "-"
  | .positive => ""

/-- A double as text. -/
def floatText (layout : Decimal.Layout) (value : Float) : String :=
  match value.toModel.unpack with
  | .notANumber => "NaN"
  | .infinity sign => signText sign ++ "inf"
  | .zero sign => signText sign ++ (Decimal.mk 0 0).text layout
  | .finite sign mantissa exponent _ =>
      signText sign ++ (Decimal.shortest mantissa exponent).text layout

end RootTrace
