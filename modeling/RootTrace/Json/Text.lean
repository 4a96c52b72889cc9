/-!
# Strings of structured text

Behind its opening quote a string is a sequence of pieces up to the closing
quote: characters that stand for themselves, escaped characters, and escapes
that give a 16-bit unit by four hexadecimal digits. Two units that form a
surrogate pair denote one character. Control characters must be escaped.
-/

namespace RootTrace
namespace Json

/-- A piece of a string. -/
inductive Piece where
  /-- A character, on its own or escaped. -/
  | char (c : Char)
  /-- A 16-bit unit given by its digits. -/
  | unit (value : Nat)
  deriving DecidableEq

/-- Value of a hexadecimal digit of either case. -/
def hexDigit? (c : Char) : Option Nat :=
  if '0' ≤ c ∧ c ≤ '9' then some (c.toNat - 48)
  else if 'a' ≤ c ∧ c ≤ 'f' then some (c.toNat - 87)
  else if 'A' ≤ c ∧ c ≤ 'F' then some (c.toNat - 55)
  else none

/-- Value of four hexadecimal digits. -/
def hexUnit? (a b c d : Char) : Option Nat := do
  some ((((← hexDigit? a) * 16 + (← hexDigit? b)) * 16 + (← hexDigit? c)) * 16 +
    (← hexDigit? d))

/-- The character that a letter behind a backslash stands for. -/
def escaped? : Char → Option Char
  | '"' => some '"'
  | '\\' => some '\\'
  | '/' => some '/'
  | 'b' => some '\x08'
  | 'f' => some '\x0c'
  | 'n' => some '\n'
  | 'r' => some '\r'
  | 't' => some '\t'
  | _ => none

/-- The pieces up to the closing quote, and the text behind it. -/
def pieces? : List Char → Option (List Piece × List Char)
  | '"' :: rest => some ([], rest)
  | '\\' :: 'u' :: a :: b :: c :: d :: rest => do
      let unit ← hexUnit? a b c d
      let (pieces, rest) ← pieces? rest
      some (.unit unit :: pieces, rest)
  | '\\' :: letter :: rest => do
      let c ← escaped? letter
      let (pieces, rest) ← pieces? rest
      some (.char c :: pieces, rest)
  | c :: rest =>
      if c.toNat < 32 ∨ c = '\\' then
        none
      else do
        let (pieces, rest) ← pieces? rest
        some (.char c :: pieces, rest)
  | [] => none

/-- Whether a unit is the first half of a surrogate pair. -/
def isHighHalf (unit : Nat) : Bool :=
  decide (0xD800 ≤ unit ∧ unit < 0xDC00)

/-- Whether a unit is the second half of a surrogate pair. -/
def isLowHalf (unit : Nat) : Bool :=
  decide (0xDC00 ≤ unit ∧ unit < 0xE000)

/-- The characters that pieces denote, unless a half of a surrogate pair stands
alone. -/
def characters? : List Piece → Option (List Char)
  | [] => some []
  | .char c :: rest => (characters? rest).map (c :: ·)
  | .unit high :: .unit low :: rest =>
      if isHighHalf high && isLowHalf low then
        (characters? rest).map
          (Char.ofNat (0x10000 + (high - 0xD800) * 0x400 + (low - 0xDC00)) :: ·)
      else if isHighHalf high || isLowHalf high then
        none
      else
        (characters? (.unit low :: rest)).map (Char.ofNat high :: ·)
  | .unit unit :: rest =>
      if isHighHalf unit || isLowHalf unit then
        none
      else
        (characters? rest).map (Char.ofNat unit :: ·)

/-- The string behind an opening quote, and the text behind it. The string
itself is absent if it has no characters to show. -/
def quoted? (text : List Char) : Option (Option String × List Char) := do
  let (pieces, rest) ← pieces? text
  some ((characters? pieces).map String.ofList, rest)

end Json
end RootTrace
