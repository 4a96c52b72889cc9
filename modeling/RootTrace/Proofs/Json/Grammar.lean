import RootTrace.Json.Value
import Mathlib

/-!
# The grammar of structured text

Which texts denote which values, without a word on how they are read. A number is written
with digits before and behind a point and with a power of ten, a character on its own or by an
escape, and blanks may stand around every value, every key and every comma.

An escape may also give half of a surrogate pair alone. A string that holds one is well formed,
as a value and as a key, but it has no characters.
-/

namespace RootTrace
namespace Json

/-! ## Numbers -/

/-- The character of a digit. -/
def digitChar (digit : Fin 10) : Char :=
  Char.ofNat (48 + digit)

/-- The natural number with the given digits, the first one being the highest. -/
def natural (digits : List (Fin 10)) : ℕ :=
  Nat.ofDigits 10 (digits.reverse.map Fin.val)

/-- A power of ten at the end of a number. -/
structure Power where
  /-- Whether the mark is a capital letter. -/
  capital : Bool
  /-- The sign, if there is one, and whether it is a minus. -/
  sign : Option Bool
  /-- The digits behind the sign. -/
  digits : List (Fin 10)
  nonempty : digits ≠ []

namespace Power

/-- How the exponent is written. -/
def signedText (power : Power) : List Char :=
  (match power.sign with
    | none => []
    | some minus => [if minus then '-' else '+']) ++
    power.digits.map digitChar

/-- How the power is written. -/
def text (power : Power) : List Char :=
  (if power.capital then 'E' else 'e') :: power.signedText

/-- The exponent of ten. -/
def value (power : Power) : ℤ :=
  if power.sign = some true then -natural power.digits else natural power.digits

end Power

/-- The parts of a number. -/
structure Literal where
  /-- Whether there is a minus sign. -/
  negative : Bool
  /-- The digits before the point. -/
  whole : List (Fin 10)
  /-- The digits behind the point. Without any there is no point. -/
  fraction : List (Fin 10)
  /-- The power of ten, if there is one. -/
  power : Option Power
  nonempty : whole ≠ []
  /-- Only zero itself starts with zero. -/
  noLeadingZero : whole.head? = some 0 → whole = [0]

namespace Literal

/-- How the number is written behind its sign. -/
def magnitudeText (literal : Literal) : List Char :=
  literal.whole.map digitChar ++
    ((if literal.fraction = [] then [] else '.' :: literal.fraction.map digitChar) ++
      literal.power.elim [] Power.text)

/-- How the number is written. -/
def text (literal : Literal) : List Char :=
  if literal.negative then '-' :: literal.magnitudeText else literal.magnitudeText

/-- What is kept of the number. -/
def numeral (literal : Literal) : Numeral where
  negative := literal.negative
  mantissa := natural (literal.whole ++ literal.fraction)
  exponent := literal.power.elim 0 Power.value - literal.fraction.length
  isInteger := literal.fraction.isEmpty && literal.power.isNone

end Literal

/-! ## Strings -/

/-- The digit characters of both cases, from zero on. -/
def hexChars : List (Char × Char) :=
  "0123456789abcdef".toList.zip "0123456789ABCDEF".toList

/-- Whether a character is the given hexadecimal digit, in either case. -/
def IsHex (digit : ℕ) (c : Char) : Prop :=
  ∃ lower upper, hexChars[digit]? = some (lower, upper) ∧ (c = lower ∨ c = upper)

/-- Four hexadecimal digits that give a 16-bit unit. -/
inductive IsUnit16 : ℕ → List Char → Prop where
  | digits {a b c d : ℕ} {w x y z : Char} :
      IsHex a w → IsHex b x → IsHex c y → IsHex d z →
      IsUnit16 (((a * 16 + b) * 16 + c) * 16 + d) [w, x, y, z]

/-- The letters that stand for a character behind a backslash. -/
def escapes : List (Char × Char) :=
  [('"', '"'), ('\\', '\\'), ('/', '/'), ('b', '\x08'), ('f', '\x0c'), ('n', '\n'),
    ('r', '\r'), ('t', '\t')]

/-- How a character is written in a string. -/
inductive Spelled (c : Char) : List Char → Prop where
  /-- Any character but quotes, backslashes and control characters stands for itself. -/
  | plain : 32 ≤ c.toNat → c ≠ '"' → c ≠ '\\' → Spelled c [c]
  /-- Some have a letter of their own. -/
  | letter {letter : Char} : (letter, c) ∈ escapes → Spelled c ['\\', letter]
  /-- A character of 16 bits can be given by its digits. -/
  | unit {digits : List Char} : IsUnit16 c.toNat digits → Spelled c ('\\' :: 'u' :: digits)
  /-- A character of more bits is given by a surrogate pair. -/
  | pair {high low : ℕ} {first second : List Char} :
      high < 0x400 → low < 0x400 → c.toNat = 0x10000 + high * 0x400 + low →
      IsUnit16 (0xD800 + high) first → IsUnit16 (0xDC00 + low) second →
      Spelled c ('\\' :: 'u' :: first ++ '\\' :: 'u' :: second)

/-- How the characters of a string are written, one after the other. -/
inductive SpelledAll : List Char → List Char → Prop where
  | nil : SpelledAll [] []
  | cons {c : Char} {characters spelling text : List Char} :
      Spelled c spelling → SpelledAll characters text →
      SpelledAll (c :: characters) (spelling ++ text)

/-- What may stand between the quotes of a string, whether or not it has characters. -/
inductive Inside : List Char → Prop where
  | nil : Inside []
  | character {c : Char} {spelling text : List Char} :
      Spelled c spelling → Inside text → Inside (spelling ++ text)
  /-- The digits may give any unit of 16 bits, also half of a surrogate pair. -/
  | unit {unit : ℕ} {digits text : List Char} :
      IsUnit16 unit digits → Inside text → Inside ('\\' :: 'u' :: (digits ++ text))

/-- How a string is written, with its quotes. It is absent if what stands between them is not
how any characters are written, because half of a surrogate pair stands alone. -/
inductive Quoted : Option String → List Char → Prop where
  | characters {s : String} {text : List Char} :
      SpelledAll s.toList text → Quoted (some s) ('"' :: (text ++ ['"']))
  | loneHalf {text : List Char} :
      Inside text → (∀ characters, ¬ SpelledAll characters text) →
      Quoted none ('"' :: (text ++ ['"']))

/-! ## Values -/

/-- Nothing but blanks. -/
def Blank (text : List Char) : Prop :=
  ∀ c ∈ text, c ∈ [' ', '\t', '\r', '\n']

/-- What a stretch of text can denote. -/
inductive Part where
  /-- A value without blanks around it. -/
  | value (value : Json)
  /-- A value, possibly with blanks around it. -/
  | padded (value : Json)
  /-- The items of a list, with the commas between them. -/
  | items (items : List Json)
  /-- A key with its value. -/
  | entry (key : Option String) (value : Json)
  /-- The members of an object, with the commas between them. -/
  | members (members : List (Option String × Json))

/-- Which texts denote what. -/
inductive Denotes : Part → List Char → Prop where
  | null : Denotes (.value .null) "null".toList
  | true : Denotes (.value (.bool true)) "true".toList
  | false : Denotes (.value (.bool false)) "false".toList
  | number (literal : Literal) : Denotes (.value (.number literal.numeral)) literal.text
  | string {s : Option String} {text : List Char} :
      Quoted s text → Denotes (.value (.string s)) text
  | noItems {blank : List Char} :
      Blank blank → Denotes (.value (.array [])) ('[' :: (blank ++ [']']))
  | array {items : List Json} {text : List Char} :
      Denotes (.items items) text → Denotes (.value (.array items)) ('[' :: (text ++ [']']))
  | noMembers {blank : List Char} :
      Blank blank → Denotes (.value (.object [])) ('{' :: (blank ++ ['}']))
  | object {members : List (Option String × Json)} {text : List Char} :
      Denotes (.members members) text →
      Denotes (.value (.object members)) ('{' :: (text ++ ['}']))
  | padded {value : Json} {before text behind : List Char} :
      Blank before → Denotes (.value value) text → Blank behind →
      Denotes (.padded value) (before ++ (text ++ behind))
  | lastItem {value : Json} {text : List Char} :
      Denotes (.padded value) text → Denotes (.items [value]) text
  | item {value : Json} {items : List Json} {text rest : List Char} :
      Denotes (.padded value) text → Denotes (.items items) rest →
      Denotes (.items (value :: items)) (text ++ ',' :: rest)
  | entry {key : Option String} {value : Json} {before name behind text : List Char} :
      Blank before → Quoted key name → Blank behind → Denotes (.padded value) text →
      Denotes (.entry key value) (before ++ (name ++ (behind ++ ':' :: text)))
  | lastMember {key : Option String} {value : Json} {text : List Char} :
      Denotes (.entry key value) text → Denotes (.members [(key, value)]) text
  | member {key : Option String} {value : Json} {members : List (Option String × Json)}
      {text rest : List Char} :
      Denotes (.entry key value) text → Denotes (.members members) rest →
      Denotes (.members ((key, value) :: members)) (text ++ ',' :: rest)

/-- Whether a text is a value with nothing but blanks around it. -/
def Writes (text : String) (value : Json) : Prop :=
  Denotes (.padded value) text.toList

end Json
end RootTrace
