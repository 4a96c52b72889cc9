import RootTrace.Proofs.Json.Reading

/-!
# The reader accepts nothing else

Whatever the reader takes off the front of a text is written there according to the grammar.
Together with the converse this says that a text is read as a value exactly if it denotes this
value, so a statement about all texts of a value is one about all texts that are accepted.
-/

namespace RootTrace
namespace Json

/-! ## Numbers -/

theorem exists_digitChar {c : Char} (isDigit : c.isDigit = true) :
    ∃ digit, digitChar digit = c := by
  simp only [Char.isDigit, Bool.and_eq_true, decide_eq_true_eq] at isDigit
  have least : 48 ≤ c.toNat := isDigit.1
  have most : c.toNat ≤ 57 := isDigit.2
  refine ⟨⟨c.toNat - 48, by omega⟩, ?_⟩
  rw [digitChar, Nat.add_sub_cancel' least, Char.ofNat_toNat]

theorem exists_map_digitChar {text : List Char} (all : ∀ c ∈ text, c.isDigit = true) :
    ∃ digits : List (Fin 10), text = digits.map digitChar := by
  induction text with
  | nil => exact ⟨[], rfl⟩
  | cons c text inductionHypothesis =>
      obtain ⟨first, others⟩ := List.forall_mem_cons.mp all
      obtain ⟨digit, rfl⟩ := exists_digitChar first
      obtain ⟨digits, rfl⟩ := inductionHypothesis others
      exact ⟨digit :: digits, rfl⟩

/-- A run of digits that is taken off the front stands there. -/
theorem exists_digits_of_digits?
    {text run rest : List Char}
    (read : digits? text = some (run, rest)) :
    ∃ digits, digits ≠ [] ∧ run = digits.map digitChar ∧ text = run ++ rest := by
  unfold digits? at read
  split at read
  · cases read
  · rename_i nonempty equal
    cases read
    rw [List.span_eq_takeWhile_dropWhile] at equal
    obtain ⟨taken, left⟩ := Prod.mk.inj equal
    have all : ∀ c ∈ run, c.isDigit = true := by
      intro c member
      rw [← taken] at member
      exact List.mem_takeWhile_imp member
    obtain ⟨digits, written⟩ := exists_map_digitChar all
    refine ⟨digits, ?_, written, ?_⟩
    · rintro rfl
      exact nonempty written
    · rw [← taken, ← left, List.takeWhile_append_dropWhile]

theorem exists_digits_of_whole?
    {text run rest : List Char}
    (read : whole? text = some (run, rest)) :
    ∃ digits, digits ≠ [] ∧ (digits.head? = some 0 → digits = [0]) ∧
      run = digits.map digitChar ∧ text = run ++ rest := by
  unfold whole? at read
  split at read
  · cases read
    exact ⟨[0], by decide, fun _ => rfl, rfl, rfl⟩
  · rename_i notZero
    obtain ⟨digits, nonempty, rfl, rfl⟩ := exists_digits_of_digits? read
    refine ⟨digits, nonempty, ?_, rfl, rfl⟩
    intro zero
    obtain ⟨others, rfl⟩ := List.head?_eq_some_iff.mp zero
    exact (notZero _ rfl).elim

/-- A fraction that is taken off the front stands there behind its point. No digits are taken
exactly if there is no point. -/
theorem exists_digits_of_fraction?
    {text run rest : List Char}
    (read : fraction? text = some (run, rest)) :
    ∃ digits, run = digits.map digitChar ∧
      text = (if digits = [] then [] else '.' :: digits.map digitChar) ++ rest := by
  unfold fraction? at read
  split at read
  · obtain ⟨digits, nonempty, rfl, rfl⟩ := exists_digits_of_digits? read
    refine ⟨digits, rfl, ?_⟩
    rw [if_neg nonempty]
    rfl
  · cases read
    exact ⟨[], rfl, rfl⟩

/-- An exponent that is taken off the front stands there with its sign, whatever the case of the
mark in front of it was. -/
theorem exists_power_of_signedDigits?
    {text rest : List Char}
    {value : ℤ}
    (read : signedDigits? text = some (value, rest))
    (capital : Bool) :
    ∃ power : Power, power.capital = capital ∧ power.value = value ∧
      text = power.signedText ++ rest := by
  have natural_eq (digits : List (Fin 10)) :
      appendDigits 0 (digits.map digitChar) = natural digits := by
    rw [appendDigits_eq, zero_mul, zero_add]
  unfold signedDigits? at read
  split at read
  all_goals
    obtain ⟨⟨run, left⟩, taken, equal⟩ := Option.map_eq_some_iff.mp read
    obtain ⟨rfl, rfl⟩ := Prod.mk.inj equal
    obtain ⟨digits, nonempty, rfl, rfl⟩ := exists_digits_of_digits? taken
    rw [natural_eq]
  · exact ⟨⟨capital, some true, digits, nonempty⟩, rfl, rfl, rfl⟩
  · exact ⟨⟨capital, some false, digits, nonempty⟩, rfl, rfl, rfl⟩
  · exact ⟨⟨capital, none, digits, nonempty⟩, rfl, rfl, rfl⟩

/-- A mark and the exponent that is read behind it are a power of ten. -/
theorem exists_power_of_map_signedDigits?
    {text rest : List Char}
    {value? : Option ℤ}
    (capital : Bool)
    (read : (signedDigits? text).map (fun taken => (some taken.1, taken.2)) =
      some (value?, rest)) :
    ∃ power : Option Power, power.map Power.value = value? ∧
      (if capital then 'E' else 'e') :: text = power.elim [] Power.text ++ rest := by
  obtain ⟨⟨value, left⟩, taken, equal⟩ := Option.map_eq_some_iff.mp read
  obtain ⟨rfl, rfl⟩ := Prod.mk.inj equal
  obtain ⟨power, rfl, rfl, rfl⟩ := exists_power_of_signedDigits? taken capital
  exact ⟨some power, rfl, rfl⟩

/-- A power of ten that is taken off the front stands there with its mark, if there is one at
all. -/
theorem exists_power_of_exponent?
    {text rest : List Char}
    {value? : Option ℤ}
    (read : exponent? text = some (value?, rest)) :
    ∃ power : Option Power, power.map Power.value = value? ∧
      text = power.elim [] Power.text ++ rest := by
  unfold exponent? at read
  split at read
  · exact exists_power_of_map_signedDigits? false read
  · exact exists_power_of_map_signedDigits? true read
  · cases read
    exact ⟨none, rfl, rfl⟩

/-- A number without its sign that is taken off the front stands there. -/
theorem exists_literal_of_magnitude?
    {negative : Bool}
    {text rest : List Char}
    {numeral : Numeral}
    (read : magnitude? negative text = some (numeral, rest)) :
    ∃ literal : Literal, literal.negative = negative ∧ literal.numeral = numeral ∧
      text = literal.magnitudeText ++ rest := by
  obtain ⟨⟨_, _⟩, first, remaining⟩ := Option.bind_eq_some_iff.mp read
  obtain ⟨⟨_, _⟩, second, remaining⟩ := Option.bind_eq_some_iff.mp remaining
  obtain ⟨⟨_, _⟩, third, made⟩ := Option.bind_eq_some_iff.mp remaining
  obtain ⟨whole, nonempty, noLeadingZero, rfl, rfl⟩ := exists_digits_of_whole? first
  obtain ⟨fraction, rfl, rfl⟩ := exists_digits_of_fraction? second
  obtain ⟨power, rfl, rfl⟩ := exists_power_of_exponent? third
  obtain ⟨rfl, rfl⟩ := Prod.mk.inj (Option.some.inj made)
  refine ⟨⟨negative, whole, fraction, power, nonempty, noLeadingZero⟩, rfl, ?_, ?_⟩
  · rw [Literal.numeral, appendDigits_append, List.length_map]
    cases power <;> simp
  · rw [Literal.magnitudeText, List.append_assoc, List.append_assoc]

/-- A number that is taken off the front stands there with its sign. -/
theorem exists_literal_of_numeral?
    {text rest : List Char}
    {numeral : Numeral}
    (read : numeral? text = some (numeral, rest)) :
    ∃ literal : Literal, literal.numeral = numeral ∧ text = literal.text ++ rest := by
  unfold numeral? at read
  split at read
  · obtain ⟨literal, sign, rfl, rfl⟩ := exists_literal_of_magnitude? read
    refine ⟨literal, rfl, ?_⟩
    rw [Literal.text, sign]
    rfl
  · obtain ⟨literal, sign, rfl, rfl⟩ := exists_literal_of_magnitude? read
    refine ⟨literal, rfl, ?_⟩
    rw [Literal.text, sign]
    rfl

/-! ## Strings -/

/-- A character that has a value as a digit is one of the hexadecimal digits. There are few
characters up to the last of them, so all are tried. -/
theorem isHex_of_hexDigit? {digit : ℕ} {c : Char} (read : hexDigit? c = some digit) :
    IsHex digit c := by
  have bound : c.toNat < 103 := by
    unfold hexDigit? at read
    split at read
    · rename_i range
      exact lt_of_le_of_lt (show c.toNat ≤ 57 from range.2) (by decide)
    · split at read
      · rename_i range
        exact lt_of_le_of_lt (show c.toNat ≤ 102 from range.2) (by decide)
      · split at read
        · rename_i range
          exact lt_of_le_of_lt (show c.toNat ≤ 70 from range.2) (by decide)
        · cases read
  have all : ∀ code < 103, ∀ digit ∈ hexDigit? (Char.ofNat code), ∃ pair ∈ hexChars[digit]?,
      Char.ofNat code = pair.1 ∨ Char.ofNat code = pair.2 := by
    decide +kernel
  rw [← Char.ofNat_toNat c] at read ⊢
  obtain ⟨⟨lower, upper⟩, listed, either⟩ := all c.toNat bound digit read
  exact ⟨lower, upper, listed, either⟩

theorem isUnit16_of_hexUnit? {a b c d : Char} {unit : ℕ} (read : hexUnit? a b c d = some unit) :
    IsUnit16 unit [a, b, c, d] := by
  obtain ⟨_, first, read⟩ := Option.bind_eq_some_iff.mp read
  obtain ⟨_, second, read⟩ := Option.bind_eq_some_iff.mp read
  obtain ⟨_, third, read⟩ := Option.bind_eq_some_iff.mp read
  obtain ⟨_, fourth, read⟩ := Option.bind_eq_some_iff.mp read
  cases read
  exact .digits (isHex_of_hexDigit? first) (isHex_of_hexDigit? second)
    (isHex_of_hexDigit? third) (isHex_of_hexDigit? fourth)

theorem mem_escapes_of_escaped? {letter c : Char} (read : escaped? letter = some c) :
    (letter, c) ∈ escapes := by
  unfold escaped? at read
  split at read
  case h_9 => cases read
  all_goals
    cases read
    decide

/-- The pieces that are taken off the front stand there, and a quote behind them. -/
theorem exists_pieced_of_pieces?
    {text rest : List Char}
    {pieces : List Piece}
    (read : pieces? text = some (pieces, rest)) :
    ∃ inside, Pieced pieces inside ∧ text = inside ++ '"' :: rest := by
  fun_induction pieces? text generalizing pieces with
  | case1 =>
      cases read
      exact ⟨[], .nil, rfl⟩
  | case2 a b c d text inductionHypothesis =>
      obtain ⟨unit, value, read⟩ := Option.bind_eq_some_iff.mp read
      obtain ⟨⟨following, _⟩, taken, equal⟩ := Option.bind_eq_some_iff.mp read
      cases equal
      obtain ⟨inside, pieced, rfl⟩ := inductionHypothesis taken
      exact ⟨_, .unit (isUnit16_of_hexUnit? value) pieced, rfl⟩
  | case3 letter text _ inductionHypothesis =>
      obtain ⟨c, value, read⟩ := Option.bind_eq_some_iff.mp read
      obtain ⟨⟨following, _⟩, taken, equal⟩ := Option.bind_eq_some_iff.mp read
      cases equal
      obtain ⟨inside, pieced, rfl⟩ := inductionHypothesis taken
      exact ⟨_, .letter (mem_escapes_of_escaped? value) pieced, rfl⟩
  | case4 => cases read
  | case5 c text notQuote _ _ printable inductionHypothesis =>
      obtain ⟨⟨following, _⟩, taken, equal⟩ := Option.bind_eq_some_iff.mp read
      cases equal
      obtain ⟨least, notBackslash⟩ := not_or.mp printable
      obtain ⟨inside, pieced, rfl⟩ := inductionHypothesis taken
      exact ⟨_, .plain (not_lt.mp least) notQuote notBackslash pieced, rfl⟩
  | case6 => cases read

theorem Pieced.inside {pieces : List Piece} {text : List Char} (pieced : Pieced pieces text) :
    Inside text := by
  induction pieced with
  | nil => exact .nil
  | plain printable notQuote notBackslash _ inductionHypothesis =>
      exact .character (.plain printable notQuote notBackslash) inductionHypothesis
  | letter listed _ inductionHypothesis => exact .character (.letter listed) inductionHypothesis
  | unit is _ inductionHypothesis => exact .unit is inductionHypothesis

/-- A text is made of pieces in one way only. -/
theorem Pieced.unique
    {first second : List Piece}
    {text : List Char}
    (pieced : Pieced first text)
    (again : Pieced second text) :
    first = second := by
  have both := (pieced.pieces?_append []).symm.trans (again.pieces?_append [])
  exact (Prod.mk.inj (Option.some.inj both)).1

/-- Pieces between quotes write the string of their characters, or one without characters. -/
theorem Pieced.quoted {pieces : List Piece} {text : List Char} (pieced : Pieced pieces text) :
    Quoted ((characters? pieces).map String.ofList) ('"' :: (text ++ ['"'])) := by
  cases denotes : characters? pieces with
  | some characters =>
      refine .characters ?_
      rw [String.toList_ofList]
      exact pieced.spelledAll denotes
  | none =>
      refine .loneHalf pieced.inside fun characters spelled => ?_
      obtain ⟨others, again, value⟩ := spelled.exists_pieced
      rw [← pieced.unique again, denotes] at value
      cases value

/-- A string that is taken off the front stands there, if its opening quote is put back. -/
theorem exists_quoted_of_quoted?
    {text rest : List Char}
    {s : Option String}
    (read : quoted? text = some (s, rest)) :
    ∃ name, Quoted s name ∧ '"' :: text = name ++ rest := by
  obtain ⟨⟨pieces, _⟩, taken, made⟩ := Option.bind_eq_some_iff.mp read
  obtain ⟨rfl, rfl⟩ := Prod.mk.inj (Option.some.inj made)
  obtain ⟨inside, pieced, rfl⟩ := exists_pieced_of_pieces? taken
  exact ⟨_, pieced.quoted, by simp⟩

/-! ## Blanks -/

theorem mem_of_isBlank {c : Char} (blank : isBlank c = true) : c ∈ [' ', '\t', '\r', '\n'] := by
  simpa [isBlank, or_assoc] using blank

/-- In front of what is left without blanks there are only blanks. -/
theorem exists_blank_append {text rest : List Char} (visible : skipBlank text = rest) :
    ∃ blank, Blank blank ∧ text = blank ++ rest := by
  subst visible
  exact ⟨text.takeWhile isBlank, fun _ member => mem_of_isBlank (List.mem_takeWhile_imp member),
    List.takeWhile_append_dropWhile.symm⟩

/-! ## Values -/

/-- Behind blanks, a text starts with a value. -/
def StartsWith (value : Json) (text rest : List Char) : Prop :=
  ∃ before inside, Blank before ∧ Denotes (.value value) inside ∧
    text = before ++ (inside ++ rest)

theorem startsWith_of_skipBlank
    {value : Json}
    {text inside rest : List Char}
    (denotes : Denotes (.value value) inside)
    (visible : skipBlank text = inside ++ rest) :
    StartsWith value text rest := by
  obtain ⟨before, blanks, whole⟩ := exists_blank_append visible
  exact ⟨before, inside, blanks, denotes, whole⟩

/-- The blanks behind a value belong to it. -/
theorem StartsWith.exists_padded
    {value : Json}
    {text rest : List Char}
    (starts : StartsWith value text rest) :
    ∃ padded, Denotes (.padded value) padded ∧ text = padded ++ skipBlank rest := by
  obtain ⟨before, inside, blanks, denotes, rfl⟩ := starts
  obtain ⟨behind, blanksBehind, whole⟩ := exists_blank_append (Eq.refl (skipBlank rest))
  refine ⟨_, .padded blanks denotes blanksBehind, ?_⟩
  rw [List.append_assoc, List.append_assoc, ← whole]

/-- With this much fuel the readers take only what the grammar allows. -/
structure Accepts (fuel : ℕ) : Prop where
  value {value : Json} {text rest : List Char} :
    value? fuel text = some (value, rest) → StartsWith value text rest
  items {items : List Json} {text rest : List Char} :
    items? fuel text = some (items, rest) →
      ∃ inside, Denotes (.items items) inside ∧ text = inside ++ ']' :: rest
  members {members : List (Option String × Json)} {text rest : List Char} :
    members? fuel text = some (members, rest) →
      ∃ inside, Denotes (.members members) inside ∧ text = inside ++ '}' :: rest

section Fuel

variable {fuel : ℕ} {text rest : List Char}

/-- The reader of values keeps to the grammar if the readers of items and members do with less
fuel. Each case is that of the first character. -/
theorem Accepts.startsWith_of_value?
    (accepts : Accepts fuel)
    {value : Json}
    (read : value? (fuel + 1) text = some (value, rest)) :
    StartsWith value text rest := by
  rw [value?] at read
  split at read
  case h_1 visible =>
    cases read
    exact startsWith_of_skipBlank .null visible
  case h_2 visible =>
    cases read
    exact startsWith_of_skipBlank .true visible
  case h_3 visible =>
    cases read
    exact startsWith_of_skipBlank .false visible
  case h_4 visible =>
    obtain ⟨⟨s, _⟩, taken, equal⟩ := Option.map_eq_some_iff.mp read
    cases equal
    obtain ⟨name, quoted, whole⟩ := exists_quoted_of_quoted? taken
    exact startsWith_of_skipBlank (.string quoted) (visible.trans whole)
  case h_5 _ visible =>
    split at read
    · rename_i closed
      cases read
      obtain ⟨blank, blanks, rfl⟩ := exists_blank_append closed
      refine startsWith_of_skipBlank (.noItems blanks) (visible.trans ?_)
      simp
    · obtain ⟨⟨items, _⟩, taken, equal⟩ := Option.map_eq_some_iff.mp read
      cases equal
      rw [items?_congr (skipBlank_skipBlank _)] at taken
      obtain ⟨_, denotes, rfl⟩ := accepts.items taken
      refine startsWith_of_skipBlank (.array denotes) (visible.trans ?_)
      simp
  case h_6 _ visible =>
    split at read
    · rename_i closed
      cases read
      obtain ⟨blank, blanks, rfl⟩ := exists_blank_append closed
      refine startsWith_of_skipBlank (.noMembers blanks) (visible.trans ?_)
      simp
    · obtain ⟨⟨members, _⟩, taken, equal⟩ := Option.map_eq_some_iff.mp read
      cases equal
      rw [members?_congr (skipBlank_skipBlank _)] at taken
      obtain ⟨_, denotes, rfl⟩ := accepts.members taken
      refine startsWith_of_skipBlank (.object denotes) (visible.trans ?_)
      simp
  case h_7 =>
    obtain ⟨⟨numeral, _⟩, taken, equal⟩ := Option.map_eq_some_iff.mp read
    cases equal
    obtain ⟨literal, rfl, whole⟩ := exists_literal_of_numeral? taken
    exact startsWith_of_skipBlank (.number literal) whole

/-- The reader of items keeps to the grammar: behind the first one stands a comma and more of
them, or the closing bracket. -/
theorem Accepts.exists_items_of_items?
    (accepts : Accepts fuel)
    {items : List Json}
    (read : items? (fuel + 1) text = some (items, rest)) :
    ∃ inside, Denotes (.items items) inside ∧ text = inside ++ ']' :: rest := by
  rw [items?] at read
  obtain ⟨⟨item, left⟩, first, remaining⟩ := Option.bind_eq_some_iff.mp read
  obtain ⟨padded, denotes, rfl⟩ := (accepts.value first).exists_padded
  dsimp only at remaining
  split at remaining
  · rename_i equal
    obtain ⟨⟨others, _⟩, second, made⟩ := Option.bind_eq_some_iff.mp remaining
    cases made
    obtain ⟨inside, following, rfl⟩ := accepts.items second
    refine ⟨_, .item denotes following, ?_⟩
    rw [equal, List.append_assoc, List.cons_append]
  · rename_i equal
    cases remaining
    exact ⟨padded, .lastItem denotes, by rw [equal]⟩
  · cases remaining

/-- A key, a colon and a value make a member. -/
theorem exists_entry
    {key : Option String}
    {value : Json}
    {name left behind : List Char}
    (visible : skipBlank text = '"' :: name)
    (read : quoted? name = some (key, left))
    (colon : skipBlank left = ':' :: behind)
    (starts : StartsWith value behind rest) :
    ∃ inside, Denotes (.entry key value) inside ∧ text = inside ++ skipBlank rest := by
  obtain ⟨before, blanksBefore, rfl⟩ := exists_blank_append visible
  obtain ⟨blank, blanks, rfl⟩ := exists_blank_append colon
  obtain ⟨written, quoted, same⟩ := exists_quoted_of_quoted? read
  obtain ⟨padded, denotes, rfl⟩ := starts.exists_padded
  refine ⟨_, .entry blanksBefore quoted blanks denotes, ?_⟩
  rw [same]
  simp

/-- The reader of members keeps to the grammar: behind the first one stands a comma and more of
them, or the closing brace. -/
theorem Accepts.exists_members_of_members?
    (accepts : Accepts fuel)
    {members : List (Option String × Json)}
    (read : members? (fuel + 1) text = some (members, rest)) :
    ∃ inside, Denotes (.members members) inside ∧ text = inside ++ '}' :: rest := by
  rw [members?] at read
  split at read
  · rename_i visible
    obtain ⟨⟨key, left⟩, first, remaining⟩ := Option.bind_eq_some_iff.mp read
    dsimp only at remaining
    split at remaining
    · rename_i colon
      obtain ⟨⟨value, _⟩, second, remaining⟩ := Option.bind_eq_some_iff.mp remaining
      obtain ⟨entry, denotes, rfl⟩ := exists_entry visible first colon (accepts.value second)
      dsimp only at remaining
      split at remaining
      · rename_i equal
        obtain ⟨⟨others, _⟩, third, made⟩ := Option.bind_eq_some_iff.mp remaining
        cases made
        obtain ⟨inside, following, rfl⟩ := accepts.members third
        refine ⟨_, .member denotes following, ?_⟩
        rw [equal, List.append_assoc, List.cons_append]
      · rename_i equal
        cases remaining
        exact ⟨entry, .lastMember denotes, by rw [equal]⟩
      · cases remaining
    · cases remaining
  · cases read

end Fuel

/-- However much fuel there is, the readers take only what the grammar allows. -/
theorem accepts (fuel : ℕ) : Accepts fuel := by
  induction fuel with
  | zero =>
      constructor
      all_goals
        intro _ _ _ read
        cases read
  | succ fuel inductionHypothesis =>
      exact ⟨inductionHypothesis.startsWith_of_value?,
        inductionHypothesis.exists_items_of_items?,
        inductionHypothesis.exists_members_of_members?⟩

/-- A text that is read as a value denotes this value. -/
theorem writes_of_parse? {text : String} {value : Json} (read : parse? text = some value) :
    Writes text value := by
  obtain ⟨⟨_, rest⟩, taken, ending⟩ := Option.bind_eq_some_iff.mp read
  dsimp only at ending
  split at ending
  · rename_i nothing
    cases ending
    obtain ⟨padded, denotes, whole⟩ := ((accepts _).value taken).exists_padded
    rw [List.isEmpty_iff.mp nothing, List.append_nil] at whole
    rwa [Writes, whole]
  · cases ending

/-- The texts that are read as a value are those that denote it. -/
theorem parse?_eq_some_iff {text : String} {value : Json} :
    parse? text = some value ↔ Writes text value :=
  ⟨writes_of_parse?, parse?_of_writes⟩

end Json
end RootTrace
