import RootTrace.Json.Text
import RootTrace.Json.Value

/-!
# Reading structured text

The reader takes values off the front of a text and returns what is left. It
is strict: there is exactly one value, only four characters count as blank, no
comma stands before a closing bracket, and numbers have no leading zeros and no
plus sign in front.

Nesting is bounded by an amount of fuel. Every value takes a character, so twice
the length of the text is enough.
-/

namespace RootTrace
namespace Json

/-- Whether a character may stand between the parts of a text. -/
def isBlank (c : Char) : Bool :=
  c == ' ' || c == '\t' || c == '\r' || c == '\n'

/-- Drop blanks from the front. -/
def skipBlank (text : List Char) : List Char :=
  text.dropWhile isBlank

/-! ## Numbers -/

/-- Append decimal digits to a natural number. -/
def appendDigits (start : Nat) (digits : List Char) : Nat :=
  digits.foldl (fun value c => value * 10 + (c.toNat - 48)) start

/-- Take a nonempty run of digits off the front. -/
def digits? (text : List Char) : Option (List Char × List Char) :=
  match text.span Char.isDigit with
  | ([], _) => none
  | (digits, rest) => some (digits, rest)

/-- Take the whole part of a number off the front. A zero in front of other
digits stands alone. -/
def whole? : List Char → Option (List Char × List Char)
  | '0' :: rest => some (['0'], rest)
  | text => digits? text

/-- Take a fraction off the front, if there is one. -/
def fraction? : List Char → Option (List Char × List Char)
  | '.' :: rest => digits? rest
  | text => some ([], text)

/-- Take the digits of an exponent off the front, behind its optional sign. -/
def signedDigits? : List Char → Option (Int × List Char)
  | '-' :: rest => (digits? rest).map fun (digits, rest) => (-(appendDigits 0 digits : Int), rest)
  | '+' :: rest => (digits? rest).map fun (digits, rest) => ((appendDigits 0 digits : Int), rest)
  | text => (digits? text).map fun (digits, rest) => ((appendDigits 0 digits : Int), rest)

/-- Take an exponent off the front, if there is one. -/
def exponent? : List Char → Option (Option Int × List Char)
  | 'e' :: rest => (signedDigits? rest).map fun (power, rest) => (some power, rest)
  | 'E' :: rest => (signedDigits? rest).map fun (power, rest) => (some power, rest)
  | text => some (none, text)

/-- Take an unsigned number off the front. -/
def magnitude? (negative : Bool) (text : List Char) : Option (Numeral × List Char) := do
  let (whole, rest) ← whole? text
  let (fraction, rest) ← fraction? rest
  let (power, rest) ← exponent? rest
  some ({
    negative
    mantissa := appendDigits (appendDigits 0 whole) fraction
    exponent := power.getD 0 - fraction.length
    isInteger := fraction.isEmpty && power.isNone }, rest)

/-- Take a number off the front. -/
def numeral? : List Char → Option (Numeral × List Char)
  | '-' :: rest => magnitude? true rest
  | text => magnitude? false text

/-! ## Values -/

mutual

/-- Take a value off the front. -/
def value? : Nat → List Char → Option (Json × List Char)
  | 0, _ => none
  | fuel + 1, text =>
      match skipBlank text with
      | 'n' :: 'u' :: 'l' :: 'l' :: rest => some (.null, rest)
      | 't' :: 'r' :: 'u' :: 'e' :: rest => some (.bool true, rest)
      | 'f' :: 'a' :: 'l' :: 's' :: 'e' :: rest => some (.bool false, rest)
      | '"' :: rest => (quoted? rest).map fun (value, rest) => (.string value, rest)
      | '[' :: rest =>
          match skipBlank rest with
          | ']' :: rest => some (.array [], rest)
          | rest => (items? fuel rest).map fun (items, rest) => (.array items, rest)
      | '{' :: rest =>
          match skipBlank rest with
          | '}' :: rest => some (.object [], rest)
          | rest => (members? fuel rest).map fun (members, rest) => (.object members, rest)
      | rest => (numeral? rest).map fun (value, rest) => (.number value, rest)

/-- Take values and the commas between them off the front, up to a closing
bracket. -/
def items? : Nat → List Char → Option (List Json × List Char)
  | 0, _ => none
  | fuel + 1, text => do
      let (item, rest) ← value? fuel text
      match skipBlank rest with
      | ',' :: rest => do
          let (items, rest) ← items? fuel rest
          some (item :: items, rest)
      | ']' :: rest => some ([item], rest)
      | _ => none

/-- Take named values and the commas between them off the front, up to a closing
brace. -/
def members? : Nat → List Char → Option (List (Option String × Json) × List Char)
  | 0, _ => none
  | fuel + 1, text =>
      match skipBlank text with
      | '"' :: rest => do
          let (key, rest) ← quoted? rest
          match skipBlank rest with
          | ':' :: rest => do
              let (value, rest) ← value? fuel rest
              match skipBlank rest with
              | ',' :: rest => do
                  let (members, rest) ← members? fuel rest
                  some ((key, value) :: members, rest)
              | '}' :: rest => some ([(key, value)], rest)
              | _ => none
          | _ => none
      | _ => none

end

/-- The value that a text denotes. Nothing but blanks may stand behind it. -/
def parse? (text : String) : Option Json := do
  let characters := text.toList
  let (value, rest) ← value? (2 * characters.length + 2) characters
  if (skipBlank rest).isEmpty then some value else none

end Json
end RootTrace
