import RootTrace.Json.Parser
import RootTrace.Proofs.Json.Grammar

/-!
# The reader reads what the grammar allows

A text that denotes a value is read as this value. The reader looks only at the front of a
text, so every part of a text is read in front of whatever follows it. Only a number needs
that nothing follows which could belong to it.
-/

namespace RootTrace
namespace Json

/-! ## Numbers -/

theorem isDigit_digitChar (digit : Fin 10) : (digitChar digit).isDigit = true := by
  revert digit
  decide

theorem toNat_digitChar (digit : Fin 10) : (digitChar digit).toNat - 48 = digit := by
  revert digit
  decide

/-- Nothing here belongs to a run of digits in front. -/
def NoDigit (text : List Char) : Prop :=
  ∀ c ∈ text.head?, c.isDigit = false

/-- Appending digits to a number shifts it by their count and adds the number that they write. -/
theorem appendDigits_eq (start : ℕ) (digits : List (Fin 10)) :
    appendDigits start (digits.map digitChar) = start * 10 ^ digits.length + natural digits := by
  unfold natural
  induction digits generalizing start with
  | nil => simp [appendDigits]
  | cons digit digits inductionHypothesis =>
      change appendDigits (start * 10 + ((digitChar digit).toNat - 48)) (digits.map digitChar) = _
      rw [inductionHypothesis, toNat_digitChar, List.reverse_cons, List.map_append,
        Nat.ofDigits_append, List.length_map, List.length_reverse, List.map_singleton,
        Nat.ofDigits_singleton, List.length_cons]
      ring

theorem appendDigits_append (whole fraction : List (Fin 10)) :
    appendDigits (appendDigits 0 (whole.map digitChar)) (fraction.map digitChar) =
      natural (whole ++ fraction) := by
  have together := appendDigits_eq 0 (whole ++ fraction)
  rw [zero_mul, zero_add] at together
  rw [← together, List.map_append, appendDigits, appendDigits, appendDigits, List.foldl_append]

/-- A run of digits is taken off whole, as long as no digit follows it. -/
theorem digits?_append
    {digits : List (Fin 10)}
    (nonempty : digits ≠ [])
    {rest : List Char}
    (stops : NoDigit rest) :
    digits? (digits.map digitChar ++ rest) = some (digits.map digitChar, rest) := by
  have all : ∀ c ∈ digits.map digitChar, c.isDigit = true := by
    intro c member
    obtain ⟨digit, _, rfl⟩ := List.mem_map.mp member
    exact isDigit_digitChar digit
  have span : (digits.map digitChar ++ rest).span Char.isDigit = (digits.map digitChar, rest) := by
    rw [List.span_eq_takeWhile_dropWhile, List.takeWhile_append_of_pos all,
      List.dropWhile_append_of_pos all]
    cases rest with
    | nil => simp
    | cons c rest =>
        have := stops c rfl
        simp [this]
  unfold digits?
  rw [span]
  split
  · rename_i equal
    simp at equal
    exact absurd equal.1 nonempty
  · rename_i equal
    rw [← equal]

theorem eq_zero_of_digitChar (digit : Fin 10) (zero : digitChar digit = '0') : digit = 0 := by
  revert digit
  decide

/-- A whole part is taken off whole, since a zero in front is its only digit. -/
theorem whole?_append
    {whole : List (Fin 10)}
    (nonempty : whole ≠ [])
    (noLeadingZero : whole.head? = some 0 → whole = [0])
    {rest : List Char}
    (stops : NoDigit rest) :
    whole? (whole.map digitChar ++ rest) = some (whole.map digitChar, rest) := by
  by_cases zero : whole.head? = some 0
  · rw [noLeadingZero zero]
    rfl
  · rw [← digits?_append nonempty stops]
    unfold whole?
    split
    · rename_i equal
      cases whole with
      | nil => exact absurd rfl nonempty
      | cons digit digits =>
          injection equal with same
          exact absurd (congrArg some (eq_zero_of_digitChar digit same)) zero
    · rfl

/-- What may follow a value: nothing, a blank, a comma or a closing bracket. -/
def Ends (text : List Char) : Prop :=
  ∀ c ∈ text.head?, c ∈ [' ', '\t', '\r', '\n', ',', ']', '}']

theorem Ends.noDigit {rest : List Char} (ends : Ends rest) : NoDigit rest := by
  intro c first
  have member := ends c first
  simp only [List.mem_cons, List.not_mem_nil, or_false] at member
  rcases member with rfl | rfl | rfl | rfl | rfl | rfl | rfl <;> rfl

/-- In front of a run of digits no other character can be found. -/
theorem digits_ne_cons
    {digits : List (Fin 10)}
    (nonempty : digits ≠ [])
    {c : Char}
    (notDigit : c.isDigit = false)
    (rest text : List Char) :
    digits.map digitChar ++ rest ≠ c :: text := by
  cases digits with
  | nil => exact absurd rfl nonempty
  | cons digit digits =>
      intro equal
      injection equal with same
      rw [← same, isDigit_digitChar] at notDigit
      cases notDigit

/-- An exponent is read with its sign, whether it is written or not. -/
theorem signedDigits?_append (power : Power) {rest : List Char} (stops : NoDigit rest) :
    signedDigits? (power.signedText ++ rest) = some (power.value, rest) := by
  obtain ⟨capital, sign, digits, nonempty⟩ := power
  have read := digits?_append nonempty stops
  have value := appendDigits_eq 0 digits
  rw [zero_mul, zero_add] at value
  rcases sign with _ | _ | _
  · change signedDigits? (digits.map digitChar ++ rest) = some ((natural digits : ℤ), rest)
    unfold signedDigits?
    split
    · rename_i equal
      exact absurd equal (digits_ne_cons nonempty rfl _ _)
    · rename_i equal
      exact absurd equal (digits_ne_cons nonempty rfl _ _)
    · rw [read, ← value]
      rfl
  · change (digits? (digits.map digitChar ++ rest)).map _ = some ((natural digits : ℤ), rest)
    rw [read, ← value]
    rfl
  · change (digits? (digits.map digitChar ++ rest)).map _ = some (-(natural digits : ℤ), rest)
    rw [read, ← value]
    rfl

/-- A power of ten is read if it is there. If it is not, whatever may follow a number does not
look like one. -/
theorem exponent?_append (power : Option Power) {rest : List Char} (ends : Ends rest) :
    exponent? (power.elim [] Power.text ++ rest) = some (power.map Power.value, rest) := by
  cases power with
  | none =>
      change exponent? rest = some (none, rest)
      unfold exponent?
      split
      · exact absurd (ends _ rfl) (by decide)
      · exact absurd (ends _ rfl) (by decide)
      · rfl
  | some power =>
      have read : (signedDigits? (power.signedText ++ rest)).map
          (fun read => (some read.1, read.2)) = some (some power.value, rest) := by
        rw [signedDigits?_append power ends.noDigit]
        rfl
      rw [← Option.map_some] at read
      rw [Option.elim_some, Power.text]
      cases power.capital <;> exact read

/-- Behind the whole part stands a point, the mark of a power or the end. -/
theorem noDigit_power_append (power : Option Power) {rest : List Char} (ends : Ends rest) :
    NoDigit (power.elim [] Power.text ++ rest) := by
  cases power with
  | none => exact ends.noDigit
  | some power =>
      obtain ⟨capital, sign, digits, nonempty⟩ := power
      rintro c ⟨⟩
      cases capital <;> rfl

/-- A fraction is read if it is there. If it is not, neither a power nor the end starts with a
point. -/
theorem fraction?_append
    (fraction : List (Fin 10))
    (power : Option Power)
    {rest : List Char}
    (ends : Ends rest) :
    fraction? ((if fraction = [] then [] else '.' :: fraction.map digitChar) ++
        (power.elim [] Power.text ++ rest)) =
      some (fraction.map digitChar, power.elim [] Power.text ++ rest) := by
  by_cases empty : fraction = []
  · rw [if_pos empty, empty, List.nil_append]
    unfold fraction?
    split
    · rename_i equal
      cases power with
      | none => exact absurd (ends '.' (congrArg List.head? equal)) (by decide)
      | some power =>
          obtain ⟨capital, sign, digits, nonempty⟩ := power
          cases capital <;> cases equal
    · rfl
  · rw [if_neg empty]
    exact digits?_append empty (noDigit_power_append power ends)

theorem magnitude?_append
    (literal : Literal)
    {rest : List Char}
    (ends : Ends rest) :
    magnitude? literal.negative (literal.magnitudeText ++ rest) =
      some (literal.numeral, rest) := by
  obtain ⟨negative, whole, fraction, power, nonempty, noLeadingZero⟩ := literal
  have stops : NoDigit ((if fraction = [] then [] else '.' :: fraction.map digitChar) ++
      (power.elim [] Power.text ++ rest)) := by
    by_cases empty : fraction = []
    · rw [if_pos empty]
      exact noDigit_power_append power ends
    · rw [if_neg empty]
      rintro c ⟨⟩
      rfl
  unfold magnitude? Literal.magnitudeText
  rw [List.append_assoc, List.append_assoc, whole?_append nonempty noLeadingZero stops]
  simp only [Option.bind_eq_bind, Option.bind_some]
  rw [fraction?_append fraction power ends]
  simp only [Option.bind_some]
  rw [exponent?_append power ends]
  simp only [Option.bind_some, Option.some.injEq, Prod.mk.injEq, and_true]
  rw [Literal.numeral, appendDigits_append, List.length_map]
  cases power <;> simp

theorem numeral?_append (literal : Literal) {rest : List Char} (ends : Ends rest) :
    numeral? (literal.text ++ rest) = some (literal.numeral, rest) := by
  have read := magnitude?_append literal ends
  unfold Literal.text
  cases sign : literal.negative with
  | true =>
      rw [sign] at read
      exact read
  | false =>
      rw [sign] at read
      rw [← read, if_neg Bool.false_ne_true]
      unfold numeral?
      split
      · rename_i equal
        rw [Literal.magnitudeText, List.append_assoc] at equal
        exact absurd equal (digits_ne_cons literal.nonempty rfl _ _)
      · rfl

/-! ## Strings -/

theorem hexDigit?_of_isHex {digit : ℕ} {c : Char} (hex : IsHex digit c) :
    hexDigit? c = some digit ∧ digit < 16 := by
  obtain ⟨lower, upper, listed, either⟩ := hex
  have bound : digit < 16 := by
    by_contra! high
    rw [List.getElem?_eq_none (by exact high)] at listed
    cases listed
  have both : ∀ digit < 16, ∀ pair ∈ hexChars[digit]?,
      hexDigit? pair.1 = some digit ∧ hexDigit? pair.2 = some digit := by
    decide +kernel
  obtain ⟨first, second⟩ := both digit bound (lower, upper) listed
  rcases either with rfl | rfl
  · exact ⟨first, bound⟩
  · exact ⟨second, bound⟩

theorem hexUnit?_of_isUnit16 {unit : ℕ} {digits : List Char} (is : IsUnit16 unit digits) :
    ∃ a b c d, digits = [a, b, c, d] ∧ hexUnit? a b c d = some unit := by
  cases is with
  | digits first second third fourth =>
      refine ⟨_, _, _, _, rfl, ?_⟩
      rw [hexUnit?, (hexDigit?_of_isHex first).1, (hexDigit?_of_isHex second).1,
        (hexDigit?_of_isHex third).1, (hexDigit?_of_isHex fourth).1]
      rfl

/-- Between the quotes of a string stand the given pieces, each written in one of its ways. -/
inductive Pieced : List Piece → List Char → Prop where
  | nil : Pieced [] []
  | plain {c : Char} {pieces : List Piece} {text : List Char} :
      32 ≤ c.toNat → c ≠ '"' → c ≠ '\\' → Pieced pieces text →
      Pieced (.char c :: pieces) (c :: text)
  | letter {letter c : Char} {pieces : List Piece} {text : List Char} :
      (letter, c) ∈ escapes → Pieced pieces text →
      Pieced (.char c :: pieces) ('\\' :: letter :: text)
  | unit {unit : ℕ} {digits : List Char} {pieces : List Piece} {text : List Char} :
      IsUnit16 unit digits → Pieced pieces text →
      Pieced (.unit unit :: pieces) ('\\' :: 'u' :: (digits ++ text))

theorem characters?_char (c : Char) {following : List Piece} {characters : List Char}
    (read : characters? following = some characters) :
    characters? (.char c :: following) = some (c :: characters) := by
  rw [characters?, read]
  rfl

/-- A unit that belongs to no surrogate pair stands for itself, whatever follows. -/
theorem characters?_unit (c : Char) {following : List Piece} {characters : List Char}
    (read : characters? following = some characters) :
    characters? (.unit c.toNat :: following) = some (c :: characters) := by
  have valid : c.toNat.isValidChar := c.valid
  have notHigh : isHighHalf c.toNat = false := by
    rw [isHighHalf, decide_eq_false_iff_not]
    rcases valid with low | ⟨high, _⟩ <;> omega
  have notLow : isLowHalf c.toNat = false := by
    rw [isLowHalf, decide_eq_false_iff_not]
    rcases valid with low | ⟨high, _⟩ <;> omega
  unfold characters?
  split
  · rename_i equal
    cases equal
  · rename_i equal
    cases equal
  · rename_i equal
    injection equal with same rest
    injection same with same
    subst same rest
    rw [notHigh, notLow, read]
    simp
  · rename_i equal
    injection equal with same rest
    injection same with same
    subst same rest
    rw [notHigh, notLow, read]
    simp

/-- A character that stands for itself is one piece. -/
theorem pieces?_plain
    {c : Char}
    (printable : 32 ≤ c.toNat)
    (notQuote : c ≠ '"')
    (notBackslash : c ≠ '\\')
    (rest : List Char) :
    pieces? (c :: rest) = (pieces? rest).map fun (pieces, text) => (.char c :: pieces, text) := by
  rw [pieces?.eq_def]
  split
  · rename_i equal
    exact absurd (List.cons.inj equal).1 notQuote
  · rename_i equal
    exact absurd (List.cons.inj equal).1 notBackslash
  · rename_i equal
    exact absurd (List.cons.inj equal).1 notBackslash
  · rename_i equal
    obtain ⟨rfl, rfl⟩ := List.cons.inj equal
    rw [if_neg (not_or.mpr ⟨not_lt.mpr printable, notBackslash⟩)]
    cases pieces? rest <;> rfl
  · rename_i equal
    cases equal

theorem pieces?_letter {letter c : Char} (listed : (letter, c) ∈ escapes) (rest : List Char) :
    pieces? ('\\' :: letter :: rest) =
      (pieces? rest).map fun (pieces, text) => (.char c :: pieces, text) := by
  have known : ∀ pair ∈ escapes, escaped? pair.1 = some pair.2 ∧ pair.1 ≠ 'u' := by
    decide +kernel
  obtain ⟨value, notUnit⟩ := known (letter, c) listed
  rw [pieces?.eq_def]
  split
  · rename_i equal
    cases equal
  · rename_i equal
    exact absurd (List.cons.inj (List.cons.inj equal).2).1 notUnit
  · rename_i equal
    obtain ⟨rfl, rfl⟩ := List.cons.inj (List.cons.inj equal).2
    rw [value]
    cases pieces? rest <;> rfl
  · rename_i no equal
    obtain ⟨rfl, rfl⟩ := List.cons.inj equal
    exact (no letter rest rfl rfl).elim
  · rename_i equal
    cases equal

theorem pieces?_unit {unit : ℕ} {digits : List Char} (is : IsUnit16 unit digits)
    (rest : List Char) :
    pieces? ('\\' :: 'u' :: (digits ++ rest)) =
      (pieces? rest).map fun (pieces, text) => (.unit unit :: pieces, text) := by
  obtain ⟨w, x, y, z, rfl, value⟩ := hexUnit?_of_isUnit16 is
  change (do
    let unit ← hexUnit? w x y z
    let (pieces, rest) ← pieces? rest
    some (Piece.unit unit :: pieces, rest)) = _
  rw [value]
  cases pieces? rest <;> rfl

/-- The two halves of a surrogate pair give one character. -/
theorem characters?_pair
    {c : Char}
    {high low : ℕ}
    (highBound : high < 0x400)
    (lowBound : low < 0x400)
    (value : c.toNat = 0x10000 + high * 0x400 + low)
    {following : List Piece}
    {characters : List Char}
    (read : characters? following = some characters) :
    characters? (.unit (0xD800 + high) :: .unit (0xDC00 + low) :: following) =
      some (c :: characters) := by
  have isHigh : isHighHalf (0xD800 + high) = true := decide_eq_true (by omega)
  have isLow : isLowHalf (0xDC00 + low) = true := decide_eq_true (by omega)
  rw [characters?, isHigh, isLow, read, Nat.add_sub_cancel_left, Nat.add_sub_cancel_left, ← value,
    Char.ofNat_toNat]
  rfl

/-- The pieces of a string are taken off the front up to its closing quote. -/
theorem Pieced.pieces?_append {pieces : List Piece} {text : List Char}
    (pieced : Pieced pieces text) (rest : List Char) :
    pieces? (text ++ '"' :: rest) = some (pieces, rest) := by
  induction pieced with
  | nil => rfl
  | plain printable notQuote notBackslash _ inductionHypothesis =>
      rw [List.cons_append, pieces?_plain printable notQuote notBackslash, inductionHypothesis]
      rfl
  | letter listed _ inductionHypothesis =>
      rw [List.cons_append, List.cons_append, pieces?_letter listed, inductionHypothesis]
      rfl
  | unit is _ inductionHypothesis =>
      rw [List.cons_append, List.cons_append, List.append_assoc, pieces?_unit is,
        inductionHypothesis]
      rfl

/-- A character in front of pieces makes pieces again, which have this character in front of the
characters they had, if they had any. -/
theorem Spelled.exists_pieced
    {c : Char}
    {spelling : List Char}
    (spelled : Spelled c spelling)
    {following : List Piece}
    {text : List Char}
    (pieced : Pieced following text) :
    ∃ pieces, Pieced pieces (spelling ++ text) ∧
      ∀ {characters}, characters? following = some characters →
        characters? pieces = some (c :: characters) := by
  cases spelled with
  | plain printable notQuote notBackslash =>
      exact ⟨_, .plain printable notQuote notBackslash pieced, characters?_char c⟩
  | letter listed => exact ⟨_, .letter listed pieced, characters?_char c⟩
  | unit is => exact ⟨_, .unit is pieced, characters?_unit c⟩
  | pair highBound lowBound value highUnit lowUnit =>
      rw [List.append_assoc]
      exact ⟨_, .unit highUnit (.unit lowUnit pieced),
        characters?_pair highBound lowBound value⟩

/-- However characters are written, they are written in pieces that have these characters. -/
theorem SpelledAll.exists_pieced {characters text : List Char}
    (spelled : SpelledAll characters text) :
    ∃ pieces, Pieced pieces text ∧ characters? pieces = some characters := by
  induction spelled with
  | nil => exact ⟨[], .nil, rfl⟩
  | cons first _ inductionHypothesis =>
      obtain ⟨following, pieced, denotes⟩ := inductionHypothesis
      obtain ⟨pieces, taken, value⟩ := first.exists_pieced pieced
      exact ⟨pieces, taken, value denotes⟩

/-- Whatever may stand between quotes comes in pieces. -/
theorem Inside.exists_pieced {text : List Char} (inside : Inside text) :
    ∃ pieces, Pieced pieces text := by
  induction inside with
  | nil => exact ⟨[], .nil⟩
  | character first _ inductionHypothesis =>
      obtain ⟨following, pieced⟩ := inductionHypothesis
      obtain ⟨pieces, taken, _⟩ := first.exists_pieced pieced
      exact ⟨pieces, taken⟩
  | unit is _ inductionHypothesis =>
      obtain ⟨following, pieced⟩ := inductionHypothesis
      exact ⟨_, .unit is pieced⟩

theorem IsUnit16.lt {unit : ℕ} {digits : List Char} (is : IsUnit16 unit digits) :
    unit < 2 ^ 16 := by
  cases is with
  | digits first second third fourth =>
      have := (hexDigit?_of_isHex first).2
      have := (hexDigit?_of_isHex second).2
      have := (hexDigit?_of_isHex third).2
      have := (hexDigit?_of_isHex fourth).2
      omega

/-- Unless it is half of a surrogate pair, a unit of 16 bits gives a character. -/
theorem IsUnit16.spelled
    {unit : ℕ}
    {digits : List Char}
    (is : IsUnit16 unit digits)
    (notHalf : ¬ (isHighHalf unit || isLowHalf unit) = true) :
    Spelled (Char.ofNat unit) ('\\' :: 'u' :: digits) := by
  have bound := is.lt
  have valid : unit.isValidChar := by
    simp only [isHighHalf, isLowHalf, Bool.or_eq_true, decide_eq_true_eq] at notHalf
    unfold Nat.isValidChar
    omega
  refine .unit ?_
  rwa [Char.toNat_ofNat, if_pos valid]

/-- The two halves of a surrogate pair give a character. -/
theorem IsUnit16.spelled_pair
    {high low : ℕ}
    {first second : List Char}
    (highUnit : IsUnit16 high first)
    (lowUnit : IsUnit16 low second)
    (halves : (isHighHalf high && isLowHalf low) = true) :
    Spelled (Char.ofNat (0x10000 + (high - 0xD800) * 0x400 + (low - 0xDC00)))
      ('\\' :: 'u' :: first ++ '\\' :: 'u' :: second) := by
  simp only [isHighHalf, isLowHalf, Bool.and_eq_true, decide_eq_true_eq] at halves
  obtain ⟨⟨highLeast, highBound⟩, lowLeast, lowBound⟩ := halves
  have valid : (0x10000 + (high - 0xD800) * 0x400 + (low - 0xDC00)).isValidChar := by
    unfold Nat.isValidChar
    omega
  refine .pair (by omega : high - 0xD800 < 0x400) (by omega : low - 0xDC00 < 0x400) ?_ ?_ ?_
  · rw [Char.toNat_ofNat, if_pos valid]
  · rwa [Nat.add_sub_cancel' highLeast]
  · rwa [Nat.add_sub_cancel' lowLeast]

/-- Pieces that have characters are how these characters are written. -/
theorem Pieced.spelledAll
    {pieces : List Piece}
    {characters text : List Char}
    (pieced : Pieced pieces text)
    (denotes : characters? pieces = some characters) :
    SpelledAll characters text := by
  fun_induction characters? pieces generalizing characters text with
  | case1 =>
      cases denotes
      cases pieced
      exact .nil
  | case2 c rest inductionHypothesis =>
      obtain ⟨others, following, rfl⟩ := Option.map_eq_some_iff.mp denotes
      cases pieced with
      | plain printable notQuote notBackslash pieced =>
          exact .cons (.plain printable notQuote notBackslash)
            (inductionHypothesis pieced following)
      | letter listed pieced =>
          exact .cons (.letter listed) (inductionHypothesis pieced following)
  | case3 high low rest halves inductionHypothesis =>
      obtain ⟨others, following, rfl⟩ := Option.map_eq_some_iff.mp denotes
      cases pieced with
      | @unit _ first _ _ highUnit pieced =>
          cases pieced with
          | @unit _ second _ _ lowUnit pieced =>
              have both : SpelledAll _ (('\\' :: 'u' :: first ++ '\\' :: 'u' :: second) ++ _) :=
                .cons (highUnit.spelled_pair lowUnit halves) (inductionHypothesis pieced following)
              rwa [List.append_assoc] at both
  | case4 | case6 => cases denotes
  | case5 high low rest _ whole inductionHypothesis | case7 high rest _ whole inductionHypothesis =>
      obtain ⟨others, following, rfl⟩ := Option.map_eq_some_iff.mp denotes
      cases pieced with
      | unit is pieced =>
          exact .cons (is.spelled whole) (inductionHypothesis pieced following)

/-- A string is read up to its closing quote, with its characters if it has any. -/
theorem quoted?_append {s : Option String} {text : List Char} (quoted : Quoted s text)
    (rest : List Char) :
    ∃ inside, text = '"' :: inside ∧ quoted? (inside ++ rest) = some (s, rest) := by
  cases quoted with
  | @characters s inside spelled =>
      obtain ⟨pieces, pieced, denotes⟩ := spelled.exists_pieced
      refine ⟨inside ++ ['"'], rfl, ?_⟩
      rw [List.append_assoc, List.singleton_append, quoted?, pieced.pieces?_append]
      simp [denotes]
  | @loneHalf text inside unspelled =>
      obtain ⟨pieces, pieced⟩ := inside.exists_pieced
      have absent : characters? pieces = none := by
        rw [Option.eq_none_iff_forall_not_mem]
        exact fun characters denotes => unspelled characters (pieced.spelledAll denotes)
      refine ⟨text ++ ['"'], rfl, ?_⟩
      rw [List.append_assoc, List.singleton_append, quoted?, pieced.pieces?_append]
      simp [absent]

/-! ## Blanks -/

theorem isBlank_of_mem {c : Char} (member : c ∈ [' ', '\t', '\r', '\n']) : isBlank c = true := by
  simp only [List.mem_cons, List.not_mem_nil, or_false] at member
  rcases member with rfl | rfl | rfl | rfl <;> rfl

theorem skipBlank_append {blank : List Char} (blanks : Blank blank) (rest : List Char) :
    skipBlank (blank ++ rest) = skipBlank rest :=
  List.dropWhile_append_of_pos fun c member => isBlank_of_mem (blanks c member)

theorem skipBlank_cons {c : Char} (visible : isBlank c = false) (rest : List Char) :
    skipBlank (c :: rest) = c :: rest :=
  List.dropWhile_cons_of_neg (by rw [visible]; exact Bool.false_ne_true)

theorem skipBlank_skipBlank (text : List Char) : skipBlank (skipBlank text) = skipBlank text :=
  List.dropWhile_idempotent _ _

/-- Blanks in front do no harm to what may follow a value. -/
theorem ends_append {blank rest : List Char} (blanks : Blank blank) (ends : Ends rest) :
    Ends (blank ++ rest) := by
  cases blank with
  | nil => exact ends
  | cons c blank =>
      rintro _ ⟨⟩
      have := blanks c List.mem_cons_self
      simp only [List.mem_cons, List.not_mem_nil, or_false] at this ⊢
      tauto

theorem value?_congr {first second : List Char} (same : skipBlank first = skipBlank second)
    (fuel : ℕ) : value? fuel first = value? fuel second := by
  cases fuel with
  | zero => rfl
  | succ fuel => rw [value?, value?, same]

theorem items?_congr {first second : List Char} (same : skipBlank first = skipBlank second)
    (fuel : ℕ) : items? fuel first = items? fuel second := by
  cases fuel with
  | zero => rfl
  | succ fuel => rw [items?, items?, value?_congr same]

theorem members?_congr {first second : List Char} (same : skipBlank first = skipBlank second)
    (fuel : ℕ) : members? fuel first = members? fuel second := by
  cases fuel with
  | zero => rfl
  | succ fuel => rw [members?, members?, same]

/-! ## Values -/

theorem digitChar_starts (digit : Fin 10) :
    digitChar digit ∉ ['n', 't', 'f', '"', '[', '{', ']'] ∧ isBlank (digitChar digit) = false := by
  revert digit
  decide

/-- The text of a number starts like no other value, and with no blank. -/
theorem Literal.exists_text_eq_cons (literal : Literal) :
    ∃ c tail, literal.text = c :: tail ∧
      c ∉ ['n', 't', 'f', '"', '[', '{', ']'] ∧ isBlank c = false := by
  unfold Literal.text
  cases literal.negative with
  | true => exact ⟨'-', literal.magnitudeText, rfl, by decide, rfl⟩
  | false =>
      obtain ⟨digit, digits, whole⟩ := List.exists_cons_of_ne_nil literal.nonempty
      rw [if_neg Bool.false_ne_true, Literal.magnitudeText, whole, List.map_cons, List.cons_append]
      exact ⟨digitChar digit, _, rfl, digitChar_starts digit⟩

theorem value?_number (literal : Literal) {rest : List Char} (ends : Ends rest) (fuel : ℕ) :
    value? (fuel + 1) (literal.text ++ rest) = some (.number literal.numeral, rest) := by
  have read := numeral?_append literal ends
  obtain ⟨c, tail, text, other, visible⟩ := literal.exists_text_eq_cons
  rw [text] at read ⊢
  rw [value?, List.cons_append, skipBlank_cons visible]
  split
  case h_7 =>
    rw [List.cons_append] at read
    rw [read]
    rfl
  all_goals
    rename_i equal
    rw [(List.cons.inj equal).1] at other
    exact absurd other (by decide)

/-- What is read behind a key and its value. -/
def afterEntry (fuel : ℕ) (key : Option String) (value : Json) (text : List Char) :
    Option (List (Option String × Json) × List Char) :=
  match skipBlank text with
  | ',' :: rest => do
      let (members, rest) ← members? fuel rest
      some ((key, value) :: members, rest)
  | '}' :: rest => some ([(key, value)], rest)
  | _ => none

/-- What the reader makes of a part of a text, in front of whatever may follow it. -/
def IsRead : Part → List Char → Prop
  | .value value, text =>
      (∃ c tail, text = c :: tail ∧ isBlank c = false ∧ c ≠ ']') ∧
        ∀ fuel rest, 2 * text.length ≤ fuel → Ends rest →
          value? fuel (text ++ rest) = some (value, rest)
  | .padded value, text =>
      (∀ rest, ∃ c tail, skipBlank (text ++ rest) = c :: tail ∧ c ≠ ']') ∧
        ∀ fuel rest, 2 * text.length ≤ fuel → Ends rest →
          ∃ behind, Blank behind ∧ value? fuel (text ++ rest) = some (value, behind ++ rest)
  | .items items, text =>
      (∀ rest, ∃ c tail, skipBlank (text ++ rest) = c :: tail ∧ c ≠ ']') ∧
        ∀ fuel rest, 2 * text.length + 1 ≤ fuel →
          items? fuel (text ++ ']' :: rest) = some (items, rest)
  | .entry key value, text =>
      (∀ rest, ∃ tail, skipBlank (text ++ rest) = '"' :: tail) ∧
        ∀ fuel rest, 2 * text.length ≤ fuel → Ends rest →
          members? (fuel + 1) (text ++ rest) = afterEntry fuel key value rest
  | .members members, text =>
      (∀ rest, ∃ tail, skipBlank (text ++ rest) = '"' :: tail) ∧
        ∀ fuel rest, 2 * text.length + 1 ≤ fuel →
          members? fuel (text ++ '}' :: rest) = some (members, rest)

/-- The reader has fuel left for every text that is not empty. -/
theorem exists_fuel {text : List Char} {fuel : ℕ} (nonempty : text ≠ [])
    (enough : 2 * text.length ≤ fuel) :
    ∃ less, fuel = less + 1 ∧ 2 * text.length ≤ less + 1 := by
  have := List.length_pos_of_ne_nil nonempty
  exact ⟨fuel - 1, by omega, by omega⟩

theorem ends_cons {c : Char} (ending : c ∈ [' ', '\t', '\r', '\n', ',', ']', '}'])
    (rest : List Char) : Ends (c :: rest) := by
  rintro _ ⟨⟩
  exact ending

theorem isRead_word
    {value : Json}
    {text : List Char}
    (starts : ∃ c tail, text = c :: tail ∧ isBlank c = false ∧ c ≠ ']')
    (read : ∀ fuel rest, value? (fuel + 1) (text ++ rest) = some (value, rest)) :
    IsRead (.value value) text := by
  refine ⟨starts, ?_⟩
  intro fuel rest enough _
  obtain ⟨c, tail, rfl, _⟩ := starts
  obtain ⟨fuel, rfl, _⟩ := exists_fuel (List.cons_ne_nil _ _) enough
  exact read fuel rest

theorem isRead_number (literal : Literal) :
    IsRead (.value (.number literal.numeral)) literal.text := by
  obtain ⟨c, tail, text, other, visible⟩ := literal.exists_text_eq_cons
  refine ⟨⟨c, tail, text, visible, fun same => other (by simp [same])⟩, ?_⟩
  intro fuel rest enough ends
  obtain ⟨fuel, rfl, _⟩ := exists_fuel (by simp [text]) enough
  exact value?_number literal ends fuel

theorem isRead_string {s : Option String} {text : List Char} (quoted : Quoted s text) :
    IsRead (.value (.string s)) text := by
  obtain ⟨inside, rfl, _⟩ := quoted?_append quoted []
  refine ⟨⟨'"', inside, rfl, rfl, by decide⟩, ?_⟩
  intro fuel rest enough ends
  obtain ⟨fuel, rfl, _⟩ := exists_fuel (List.cons_ne_nil _ _) enough
  obtain ⟨_, same, read⟩ := quoted?_append quoted rest
  obtain ⟨_, rfl⟩ := List.cons.inj same
  change (quoted? (inside ++ rest)).map _ = _
  rw [read]
  rfl

theorem isRead_noItems {blank : List Char} (blanks : Blank blank) :
    IsRead (.value (.array [])) ('[' :: (blank ++ [']'])) := by
  refine ⟨⟨'[', _, rfl, rfl, by decide⟩, ?_⟩
  intro fuel rest enough ends
  obtain ⟨fuel, rfl, _⟩ := exists_fuel (List.cons_ne_nil _ _) enough
  rw [List.cons_append, List.append_assoc, value?, skipBlank_cons rfl]
  simp only
  rw [skipBlank_append blanks, List.singleton_append, skipBlank_cons rfl]
  rfl

/-- An array is read if its items are. They do not start with a closing bracket, so they are not
taken for an empty array. -/
theorem isRead_array {items : List Json} {text : List Char} (read : IsRead (.items items) text) :
    IsRead (.value (.array items)) ('[' :: (text ++ [']'])) := by
  obtain ⟨starts, read⟩ := read
  refine ⟨⟨'[', _, rfl, rfl, by decide⟩, ?_⟩
  intro fuel rest enough ends
  obtain ⟨fuel, rfl, less⟩ := exists_fuel (List.cons_ne_nil _ _) enough
  rw [List.length_cons, List.length_append, List.length_singleton] at less
  rw [List.cons_append, List.append_assoc, List.singleton_append, value?, skipBlank_cons rfl]
  simp only
  obtain ⟨c, tail, first, other⟩ := starts (']' :: rest)
  split
  · rename_i equal
    rw [first] at equal
    exact absurd (List.cons.inj equal).1 other
  · rw [items?_congr (skipBlank_skipBlank _), read fuel rest (by omega)]
    rfl

theorem isRead_noMembers {blank : List Char} (blanks : Blank blank) :
    IsRead (.value (.object [])) ('{' :: (blank ++ ['}'])) := by
  refine ⟨⟨'{', _, rfl, rfl, by decide⟩, ?_⟩
  intro fuel rest enough ends
  obtain ⟨fuel, rfl, _⟩ := exists_fuel (List.cons_ne_nil _ _) enough
  rw [List.cons_append, List.append_assoc, value?, skipBlank_cons rfl]
  simp only
  rw [skipBlank_append blanks, List.singleton_append, skipBlank_cons rfl]
  rfl

/-- An object is read if its members are. They start with a quote, so they are not taken for an
empty object. -/
theorem isRead_object {members : List (Option String × Json)} {text : List Char}
    (read : IsRead (.members members) text) :
    IsRead (.value (.object members)) ('{' :: (text ++ ['}'])) := by
  obtain ⟨starts, read⟩ := read
  refine ⟨⟨'{', _, rfl, rfl, by decide⟩, ?_⟩
  intro fuel rest enough ends
  obtain ⟨fuel, rfl, less⟩ := exists_fuel (List.cons_ne_nil _ _) enough
  rw [List.length_cons, List.length_append, List.length_singleton] at less
  rw [List.cons_append, List.append_assoc, List.singleton_append, value?, skipBlank_cons rfl]
  simp only
  obtain ⟨tail, first⟩ := starts ('}' :: rest)
  split
  · rename_i equal
    rw [first] at equal
    cases equal
  · rw [members?_congr (skipBlank_skipBlank _), read fuel rest (by omega)]
    rfl

/-- Blanks in front of a value are skipped, and those behind it are left to the reader of what
follows. -/
theorem isRead_padded
    {value : Json}
    {before text behind : List Char}
    (blanksBefore : Blank before)
    (read : IsRead (.value value) text)
    (blanksBehind : Blank behind) :
    IsRead (.padded value) (before ++ (text ++ behind)) := by
  obtain ⟨⟨c, tail, starts, visible, other⟩, read⟩ := read
  constructor
  · intro rest
    refine ⟨c, tail ++ (behind ++ rest), ?_, other⟩
    rw [List.append_assoc, skipBlank_append blanksBefore, starts, List.append_assoc,
      List.cons_append, skipBlank_cons visible]
  · intro fuel rest enough ends
    rw [List.length_append, List.length_append] at enough
    refine ⟨behind, blanksBehind, ?_⟩
    rw [List.append_assoc, value?_congr (skipBlank_append blanksBefore _), List.append_assoc]
    exact read fuel (behind ++ rest) (by omega) (ends_append blanksBehind ends)

theorem isRead_lastItem {value : Json} {text : List Char} (read : IsRead (.padded value) text) :
    IsRead (.items [value]) text := by
  obtain ⟨starts, read⟩ := read
  refine ⟨starts, ?_⟩
  intro fuel rest enough
  obtain ⟨fuel, rfl⟩ : ∃ less, fuel = less + 1 := ⟨fuel - 1, by omega⟩
  obtain ⟨behind, blanks, taken⟩ := read fuel (']' :: rest) (by omega) (ends_cons (by decide) rest)
  rw [items?, taken]
  simp only [Option.bind_eq_bind, Option.bind_some]
  rw [skipBlank_append blanks, skipBlank_cons rfl]
  rfl

/-- An item is read, then a comma, then the other items. -/
theorem isRead_item
    {value : Json}
    {items : List Json}
    {text others : List Char}
    (first : IsRead (.padded value) text)
    (following : IsRead (.items items) others) :
    IsRead (.items (value :: items)) (text ++ ',' :: others) := by
  obtain ⟨starts, read⟩ := first
  constructor
  · intro rest
    rw [List.append_assoc]
    exact starts _
  · intro fuel rest enough
    rw [List.length_append, List.length_cons] at enough
    obtain ⟨fuel, rfl⟩ : ∃ less, fuel = less + 1 := ⟨fuel - 1, by omega⟩
    rw [List.append_assoc, List.cons_append]
    obtain ⟨behind, blanks, taken⟩ :=
      read fuel (',' :: (others ++ ']' :: rest)) (by omega) (ends_cons (by decide) _)
    rw [items?, taken]
    simp only [Option.bind_eq_bind, Option.bind_some]
    rw [skipBlank_append blanks, skipBlank_cons rfl]
    simp only
    rw [following.2 fuel rest (by omega)]
    rfl

/-- A member is read as its key, a colon and its value, with blanks before each of them. -/
theorem isRead_entry
    {key : Option String}
    {value : Json}
    {before name behind text : List Char}
    (blanksBefore : Blank before)
    (quoted : Quoted key name)
    (blanksBehind : Blank behind)
    (read : IsRead (.padded value) text) :
    IsRead (.entry key value) (before ++ (name ++ (behind ++ ':' :: text))) := by
  constructor
  · intro rest
    obtain ⟨inside, rfl, _⟩ := quoted?_append quoted []
    refine ⟨inside ++ ((behind ++ ':' :: text) ++ rest), ?_⟩
    rw [List.append_assoc, skipBlank_append blanksBefore, List.append_assoc, List.cons_append,
      skipBlank_cons rfl]
  · intro fuel rest enough ends
    simp only [List.length_append, List.length_cons] at enough
    obtain ⟨inside, rfl, taken⟩ :=
      quoted?_append quoted ((behind ++ ':' :: text) ++ rest)
    obtain ⟨padding, blanks, taken'⟩ := read.2 fuel rest (by omega) ends
    rw [List.append_assoc, members?, skipBlank_append blanksBefore, List.append_assoc,
      List.cons_append, skipBlank_cons rfl]
    simp only
    rw [taken]
    simp only [Option.bind_eq_bind, Option.bind_some]
    rw [List.append_assoc, skipBlank_append blanksBehind, List.cons_append, skipBlank_cons rfl]
    simp only
    rw [taken']
    simp only [Option.bind_some]
    rw [skipBlank_append blanks]
    rfl

theorem isRead_lastMember {key : Option String} {value : Json} {text : List Char}
    (read : IsRead (.entry key value) text) :
    IsRead (.members [(key, value)]) text := by
  obtain ⟨starts, read⟩ := read
  refine ⟨starts, ?_⟩
  intro fuel rest enough
  obtain ⟨fuel, rfl⟩ : ∃ less, fuel = less + 1 := ⟨fuel - 1, by omega⟩
  rw [read fuel ('}' :: rest) (by omega) (ends_cons (by decide) rest), afterEntry,
    skipBlank_cons rfl]
  rfl

/-- A member is read, then a comma, then the other members. -/
theorem isRead_member
    {key : Option String}
    {value : Json}
    {members : List (Option String × Json)}
    {text others : List Char}
    (first : IsRead (.entry key value) text)
    (following : IsRead (.members members) others) :
    IsRead (.members ((key, value) :: members)) (text ++ ',' :: others) := by
  obtain ⟨starts, read⟩ := first
  constructor
  · intro rest
    rw [List.append_assoc]
    exact starts _
  · intro fuel rest enough
    rw [List.length_append, List.length_cons] at enough
    obtain ⟨fuel, rfl⟩ : ∃ less, fuel = less + 1 := ⟨fuel - 1, by omega⟩
    rw [List.append_assoc, List.cons_append,
      read fuel (',' :: (others ++ '}' :: rest)) (by omega) (ends_cons (by decide) _), afterEntry,
      skipBlank_cons rfl]
    simp only
    rw [following.2 fuel rest (by omega)]
    rfl

/-- Every part of a text that the grammar allows is read, whatever may follow it. -/
theorem isRead_of_denotes {part : Part} {text : List Char} (denotes : Denotes part text) :
    IsRead part text := by
  induction denotes with
  | null => exact isRead_word ⟨_, _, rfl, rfl, by decide⟩ fun _ _ => rfl
  | true => exact isRead_word ⟨_, _, rfl, rfl, by decide⟩ fun _ _ => rfl
  | false => exact isRead_word ⟨_, _, rfl, rfl, by decide⟩ fun _ _ => rfl
  | number literal => exact isRead_number literal
  | string quoted => exact isRead_string quoted
  | noItems blanks => exact isRead_noItems blanks
  | array _ items => exact isRead_array items
  | noMembers blanks => exact isRead_noMembers blanks
  | object _ members => exact isRead_object members
  | padded before _ behind value => exact isRead_padded before value behind
  | lastItem _ value => exact isRead_lastItem value
  | item _ _ value items => exact isRead_item value items
  | entry before key behind _ value => exact isRead_entry before key behind value
  | lastMember _ entry => exact isRead_lastMember entry
  | member _ _ entry members => exact isRead_member entry members

/-- A text that denotes a value is read as this value. -/
theorem parse?_of_writes {text : String} {value : Json} (writes : Writes text value) :
    parse? text = some value := by
  obtain ⟨behind, blanks, read⟩ :=
    (isRead_of_denotes writes).2 (2 * text.toList.length + 2) [] (by omega) nofun
  rw [List.append_nil, List.append_nil] at read
  have nothing := skipBlank_append blanks []
  rw [List.append_nil] at nothing
  rw [parse?]
  simp only [Option.bind_eq_bind]
  rw [read]
  simp only [Option.bind_some]
  rw [nothing]
  rfl

end Json
end RootTrace
