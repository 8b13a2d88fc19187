import TaskCab.Proofs.Source.TokenEdges
import TaskCab.Proofs.Value.SignedNumber

/-!
# Number tokens

An integer token is a decimal or a radix mark with digits of the radix; a float token has a point or an
exponent. Single underscores may stand between digits. Such tokens are taken whole by the scanner, and what
is read from them is the number that their digits make.
-/

namespace TaskCab.Source

open TaskCab.Text

/-- A digit of a token: its value, whether its letter is a capital one, and whether an underscore stands in
front of it. -/
structure WrittenDigit (radix : Nat) where
  value : Fin radix
  capital : Bool
  separated : Bool

def numberCharacters : List Char := "0123456789abcdefABCDEFxXoO_.+-".toList

namespace WrittenDigit

variable {radix : Nat}

def lowered (digit : WrittenDigit radix) : Char := Nat.digitChar digit.value

def character (digit : WrittenDigit radix) : Char :=
  if digit.capital then digit.lowered.toUpper else digit.lowered

def text (digits : List (WrittenDigit radix)) : List Char :=
  digits.flatMap fun digit => if digit.separated then ['_', digit.character] else [digit.character]

def number (digits : List (WrittenDigit radix)) : Nat :=
  digits.foldl (fun total digit => total * radix + digit.value) 0

def IsPart (digits : List (WrittenDigit radix)) : Prop :=
  ∃ first ∈ digits.head?, first.separated = false

theorem IsPart.start {digits : List (WrittenDigit radix)} (isPart : IsPart digits) :
    ∀ first ∈ digits.head?, first.separated = false := by
  obtain ⟨head, isHead, notSeparated⟩ := isPart
  intro first atHead
  obtain rfl := Option.some.inj (atHead.symm.trans isHead)
  exact notSeparated

theorem IsPart.nonempty {digits : List (WrittenDigit radix)} (isPart : IsPart digits) : digits ≠ [] := by
  obtain ⟨head, isHead, -⟩ := isPart
  rintro rfl
  cases isHead

theorem empty_or_part {digits : List (WrittenDigit radix)}
    (start : ∀ first ∈ digits.head?, first.separated = false) : digits = [] ∨ IsPart digits := by
  cases digits with
  | nil => exact .inl rfl
  | cons first rest => exact .inr ⟨first, rfl, start first rfl⟩

theorem text_cons (digit : WrittenDigit radix) (rest : List (WrittenDigit radix)) :
    text (digit :: rest) =
      (if digit.separated then ['_', digit.character] else [digit.character]) ++ text rest := rfl

theorem digit_of_hexadecimal {character : Char} {value : Nat}
    (read : Integer.digitValue? 16 character = some value) (small : value < radix) :
    Integer.digitValue? radix character = some value := by
  unfold Integer.digitValue? at read ⊢
  split_ifs at read ⊢ <;> simp_all

theorem digit_value (small : radix ≤ 16) (digit : WrittenDigit radix) :
    Integer.digitValue? radix digit.character = some digit.value.val ∧
      Integer.digitValue? radix digit.lowered = some digit.value.val := by
  have hexadecimal : ∀ value : Fin 16,
      Integer.digitValue? 16 (Nat.digitChar value.val).toUpper = some value.val ∧
        Integer.digitValue? 16 (Nat.digitChar value.val) = some value.val := by decide
  obtain ⟨upper, lower⟩ := hexadecimal ⟨digit.value.val, by omega⟩
  refine ⟨?_, digit_of_hexadecimal lower digit.value.isLt⟩
  unfold character lowered
  split
  · exact digit_of_hexadecimal upper digit.value.isLt
  · exact digit_of_hexadecimal lower digit.value.isLt

theorem underscore_no_digit (radix : Nat) : Integer.digitValue? radix '_' = none := by
  simp [Integer.digitValue?]

theorem character_ne_underscore (small : radix ≤ 16) (digit : WrittenDigit radix) :
    digit.character ≠ '_' := by
  intro same
  have read := (digit_value small digit).1
  rw [same, underscore_no_digit] at read
  cases read

theorem drop_underscores_text (small : radix ≤ 16) (digits : List (WrittenDigit radix)) :
    Literal.dropUnderscores (text digits) = digits.map character := by
  induction digits with
  | nil => rfl
  | cons digit rest ih =>
      have kept := character_ne_underscore small digit
      rw [Literal.dropUnderscores] at ih
      rw [text_cons, Literal.dropUnderscores, List.filter_append, ih, List.map_cons]
      split <;> simp [kept]

theorem lower_character (small : radix ≤ 16) (digit : WrittenDigit radix) :
    digit.character.toLower = digit.lowered := by
  have hexadecimal : ∀ value : Fin 16, (Nat.digitChar value.val).toUpper.toLower = Nat.digitChar value.val ∧
      (Nat.digitChar value.val).toLower = Nat.digitChar value.val := by decide
  obtain ⟨upper, lower⟩ := hexadecimal ⟨digit.value.val, by omega⟩
  unfold character lowered
  split
  · exact upper
  · exact lower

theorem read_digits {read : WrittenDigit radix → Char}
    (each : ∀ digit, Integer.digitValue? radix (read digit) = some digit.value.val) (start : Nat)
    (digits : List (WrittenDigit radix)) :
    Integer.readDigits? radix start (digits.map read) =
      some (digits.foldl (fun total digit => total * radix + digit.value) start) := by
  induction digits generalizing start with
  | nil => rfl
  | cons digit rest ih =>
      rw [List.map_cons, Integer.readDigits?, each, List.foldl_cons, ← ih]
      rfl

theorem read_nat {read : WrittenDigit radix → Char}
    (each : ∀ digit, Integer.digitValue? radix (read digit) = some digit.value.val)
    {digits : List (WrittenDigit radix)} (nonempty : digits ≠ []) :
    Integer.readNat? radix (digits.map read) = some (number digits) := by
  have filled : (digits.map read).isEmpty = false := by simpa using nonempty
  rw [Integer.readNat?, filled, if_neg (by decide), read_digits each]
  rfl

theorem radix_length_text (small : radix ≤ 16) (digits : List (WrittenDigit radix)) :
    Lexeme.radixLength radix (text digits) = (text digits).length := by
  induction digits with
  | nil => rfl
  | cons digit rest ih =>
      have read := (digit_value small digit).1
      rw [text_cons]
      split
      · simp [Lexeme.radixLength, underscore_no_digit, read, ih]
        omega
      · simp [Lexeme.radixLength, read, ih, Nat.add_comm]

theorem text_ne_nil {digits : List (WrittenDigit radix)} (nonempty : digits ≠ []) : text digits ≠ [] := by
  obtain ⟨digit, rest, rfl⟩ := List.exists_cons_of_ne_nil nonempty
  rw [text_cons]
  split <;> simp

theorem mem_characters (small : radix ≤ 16) {digits : List (WrittenDigit radix)} {character : Char}
    (member : character ∈ text digits) : character ∈ numberCharacters := by
  have each : ∀ value : Fin 16, Nat.digitChar value.val ∈ numberCharacters ∧
      (Nat.digitChar value.val).toUpper ∈ numberCharacters := by decide
  have ofDigit (digit : WrittenDigit radix) : digit.character ∈ numberCharacters := by
    have both := each ⟨digit.value.val, digit.value.isLt.trans_le small⟩
    unfold WrittenDigit.character
    split
    · exact both.2
    · exact both.1
  obtain ⟨digit, -, inDigit⟩ := List.mem_flatMap.mp member
  split at inDigit
  · rcases List.mem_cons.mp inDigit with rfl | last
    · decide
    · exact List.mem_singleton.mp last ▸ ofDigit digit
  · exact List.mem_singleton.mp inDigit ▸ ofDigit digit

/-! ## Decimal digits -/

theorem is_digit (digit : WrittenDigit 10) : digit.character.isDigit = true :=
  Integer.is_digit_of_value (digit_value (by decide) digit).1

theorem characters_are_digits (digits : List (WrittenDigit 10)) : Numeral.IsDigits (digits.map character) :=
  List.forall_mem_map.mpr fun digit _ => is_digit digit

/-- Decimal digits with underscores among them are measured whole. -/
theorem decimal_length_text (digits : List (WrittenDigit 10)) {after : List Char}
    (stops : Stops (fun c => c.isDigit || c = '_') after) {afterDigit : Bool}
    (start : afterDigit = false → ∀ first ∈ digits.head?, first.separated = false) :
    Lexeme.decimalLength afterDigit (text digits ++ after) = (text digits).length := by
  induction digits generalizing afterDigit with
  | nil => exact Lexeme.decimal_length_stops stops afterDigit
  | cons digit rest ih =>
      have later := @ih true (by simp)
      have isDigit := digit.is_digit
      rw [text_cons]
      split
      next separated =>
        have behind : afterDigit = true := by
          by_contra front
          simp [start (by simpa using front) digit rfl] at separated
        simp [Lexeme.decimalLength, behind, isDigit, later]
        omega
      next => simp [Lexeme.decimalLength, isDigit, later, Nat.add_comm]

theorem mem_text {digits : List (WrittenDigit 10)} {character : Char} (member : character ∈ text digits) :
    character.isDigit = true ∨ character = '_' := by
  obtain ⟨digit, -, inDigit⟩ := List.mem_flatMap.mp member
  split at inDigit
  · rcases List.mem_cons.mp inDigit with rfl | last
    · exact .inr rfl
    · exact .inl (List.mem_singleton.mp last ▸ digit.is_digit)
  · exact .inl (List.mem_singleton.mp inDigit ▸ digit.is_digit)

theorem text_starts_with_digit {digits : List (WrittenDigit 10)} (isPart : IsPart digits) :
    ∃ first rest, text digits = first :: rest ∧ first.isDigit = true := by
  obtain ⟨digit, atHead, notSeparated⟩ := isPart
  obtain ⟨rest, rfl⟩ := List.head?_eq_some_iff.mp atHead
  exact ⟨digit.character, text rest, by rw [text_cons, notSeparated]; rfl, digit.is_digit⟩

theorem text_stops {digits : List (WrittenDigit 10)} (isPart : IsPart digits) {belongs : Char → Bool}
    (none : ∀ value : Fin 10, belongs (Nat.digitChar value.val) = false ∧
      belongs (Nat.digitChar value.val).toUpper = false) : Stops belongs (text digits) := by
  obtain ⟨digit, atHead, notSeparated⟩ := isPart
  obtain ⟨rest, rfl⟩ := List.head?_eq_some_iff.mp atHead
  rw [text_cons, notSeparated, if_neg (by decide), List.singleton_append, stops_cons, character, lowered]
  split
  · exact (none digit.value).2
  · exact (none digit.value).1

/-- No radix mark stands behind the first digit, unless one follows all of them. -/
theorem no_radix_mark {digits : List (WrittenDigit 10)} (isPart : IsPart digits) {after : List Char}
    (stops : Stops "xXoObB".toList.contains after) : Lexeme.radixNumber (text digits ++ after) = 0 := by
  obtain ⟨first, rest, whole, -⟩ := text_starts_with_digit isPart
  rw [whole, List.cons_append]
  apply Lexeme.radix_number_text
  cases rest with
  | nil => exact stops
  | cons second more =>
      rw [List.cons_append, stops_cons]
      refine Bool.eq_false_iff.mpr fun letter => ?_
      have plain : ∀ c ∈ "xXoObB".toList, ¬(c.isDigit = true ∨ c = '_') := by decide
      exact plain second (List.contains_iff_mem.mp letter) (mem_text (by rw [whole]; simp))

end WrittenDigit

/-! ## Integers -/

inductive Radix where
  | hexadecimal
  | octal
  | binary

namespace Radix

def base : Radix → Nat
  | hexadecimal => 16
  | octal => 8
  | binary => 2

def mark : Radix → Char
  | hexadecimal => 'x'
  | octal => 'o'
  | binary => 'b'

theorem base_le (radix : Radix) : radix.base ≤ 16 := by cases radix <;> decide

end Radix

inductive IntegerToken where
  | decimal (digits : List (WrittenDigit 10))
  | marked (radix : Radix) (capital : Bool) (digits : List (WrittenDigit radix.base))

namespace IntegerToken

def letterOf (radix : Radix) (capital : Bool) : Char := if capital then radix.mark.toUpper else radix.mark

def text : IntegerToken → List Char
  | decimal digits => WrittenDigit.text digits
  | marked radix capital digits => '0' :: letterOf radix capital :: WrittenDigit.text digits

def number : IntegerToken → Nat
  | decimal digits => WrittenDigit.number digits
  | marked _ _ digits => WrittenDigit.number digits

def IsProper : IntegerToken → Prop
  | decimal digits => WrittenDigit.IsPart digits
  | marked _ _ digits => digits ≠ []

/-- A token is read as its number where that is a word. -/
theorem integer_text {token : IntegerToken} (proper : token.IsProper) :
    Literal.integer? token.text = Integer.word? token.number := by
  cases token with
  | decimal digits =>
      have small : 10 ≤ 16 := by decide
      have read := WrittenDigit.read_nat (fun digit => (WrittenDigit.digit_value small digit).1)
        proper.nonempty
      have areDigits := WrittenDigit.characters_are_digits digits
      have run := Literal.integer_run areDigits
      rw [read, Option.bind_some, Literal.integer?, Literal.drop_underscores_digits areDigits] at run
      rw [text, Literal.integer?, WrittenDigit.drop_underscores_text small]
      exact run
  | marked radix capital digits =>
      have small := radix.base_le
      have letter : letterOf radix capital ≠ '_' ∧ (letterOf radix capital).toLower = radix.mark := by
        cases radix <;> cases capital <;> decide
      have lowered : (Literal.dropUnderscores (text (.marked radix capital digits))).map Char.toLower =
          '0' :: radix.mark :: digits.map WrittenDigit.lowered := by
        have each : Char.toLower ∘ WrittenDigit.character = WrittenDigit.lowered :=
          funext (WrittenDigit.lower_character small)
        rw [text, Literal.dropUnderscores, List.filter_cons_of_pos (by decide),
          List.filter_cons_of_pos (by simpa using letter.1), ← Literal.dropUnderscores,
          WrittenDigit.drop_underscores_text small, List.map_cons, List.map_cons, List.map_map, each,
          letter.2]
        rfl
      have read := WrittenDigit.read_nat (fun digit => (WrittenDigit.digit_value small digit).2) proper
      rw [Literal.integer?, lowered]
      cases radix <;> exact congrArg (Option.bind · fun number : Nat => Integer.word? number) read

theorem number_text {token : IntegerToken} (proper : token.IsProper) :
    Lexeme.number token.text = (.integer, token.text.length) := by
  cases token with
  | decimal digits =>
      have measured : Lexeme.decimalLength false (WrittenDigit.text digits ++ []) =
          (WrittenDigit.text digits).length :=
        WrittenDigit.decimal_length_text digits stops_nil fun _ => proper.start
      rw [List.append_nil] at measured
      have noMark := WrittenDigit.no_radix_mark proper (stops_nil : Stops "xXoObB".toList.contains [])
      rw [List.append_nil] at noMark
      have filled : (WrittenDigit.text digits).length ≠ 0 := by
        simpa using WrittenDigit.text_ne_nil proper.nonempty
      rw [text, Lexeme.number_eq, if_pos noMark, Lexeme.decimalNumber, measured, List.drop_length]
      simp [filled, Lexeme.floatLength, Lexeme.exponentLength, Lexeme.letterLength]
  | marked radix capital digits =>
      have measured := WrittenDigit.radix_length_text radix.base_le digits
      have filled : (WrittenDigit.text digits).length ≠ 0 := by
        simpa using WrittenDigit.text_ne_nil proper
      have length : Lexeme.radixNumber (text (.marked radix capital digits)) =
          2 + (WrittenDigit.text digits).length := by
        have marked : Lexeme.markedLength radix.base (WrittenDigit.text digits) =
            2 + (WrittenDigit.text digits).length := by
          simp [Lexeme.markedLength, measured, filled, Lexeme.letterLength]
        cases radix <;> cases capital <;> exact marked
      rw [Lexeme.number_eq, length, if_neg (by omega), text, List.length_cons, List.length_cons]
      congr 1
      omega

theorem text_starts_with_digit {token : IntegerToken} (proper : token.IsProper) :
    ∃ first rest, token.text = first :: rest ∧ first.isDigit = true := by
  cases token with
  | decimal digits => exact WrittenDigit.text_starts_with_digit proper
  | marked radix capital digits => exact ⟨'0', _, rfl, rfl⟩

theorem mem_characters (token : IntegerToken) : ∀ character ∈ token.text, character ∈ numberCharacters := by
  intro character member
  cases token with
  | decimal digits => exact WrittenDigit.mem_characters (by decide) member
  | marked radix capital digits =>
      rcases List.mem_cons.mp member with rfl | member
      · decide
      rcases List.mem_cons.mp member with rfl | member
      · cases radix <;> cases capital <;> decide
      · exact WrittenDigit.mem_characters radix.base_le member

theorem starts {token : IntegerToken} (proper : token.IsProper) {after : List Char}
    (stops : Stops Lexeme.goesOn after) : Lexeme.Starts ⟨.integer, token.text⟩ after := by
  obtain ⟨first, rest, whole, isDigit⟩ := text_starts_with_digit proper
  have found := number_text proper
  rw [← Lexeme.number_edge token.text (Lexeme.stops_number stops), whole, List.cons_append] at found
  exact ⟨first, rest, whole, Lexeme.first_of_digit isDigit found (by simp) |>.trans (by rw [whole])⟩

end IntegerToken

/-! ## Floats -/

/-- A mark, which may be a capital letter, a sign that may be written, and digits. -/
structure ExponentPart where
  capital : Bool
  sign : Option Bool
  digits : List (WrittenDigit 10)

namespace ExponentPart

def mark (exponent : ExponentPart) : Char := if exponent.capital then 'E' else 'e'

def text (exponent : ExponentPart) : List Char :=
  exponent.mark :: (Integer.signText exponent.sign ++ WrittenDigit.text exponent.digits)

def value (exponent : ExponentPart) : Int :=
  Integer.signed exponent.sign (WrittenDigit.number exponent.digits)

theorem mark_cases (exponent : ExponentPart) : exponent.mark = 'e' ∨ exponent.mark = 'E' := by
  unfold mark
  split
  · exact .inr rfl
  · exact .inl rfl

def plainText (exponent : ExponentPart) : List Char :=
  exponent.mark :: (Integer.signText exponent.sign ++ exponent.digits.map WrittenDigit.character)

end ExponentPart

structure FloatToken where
  whole : List (WrittenDigit 10)
  fraction : Option (List (WrittenDigit 10))
  exponent : Option ExponentPart

namespace FloatToken

def fractionText (token : FloatToken) : List Char :=
  match token.fraction with
  | some digits => '.' :: WrittenDigit.text digits
  | none => []

def exponentText (token : FloatToken) : List Char :=
  match token.exponent with
  | some exponent => exponent.text
  | none => []

def text (token : FloatToken) : List Char :=
  WrittenDigit.text token.whole ++ (token.fractionText ++ token.exponentText)

/-- Whether some digit is in front of the exponent, a point or an exponent makes the token one of a float,
and no underscore begins or ends a run of digits. -/
structure IsProper (token : FloatToken) : Prop where
  whole : ∀ first ∈ token.whole.head?, first.separated = false
  fraction : ∀ digits ∈ token.fraction, ∀ first ∈ digits.head?, first.separated = false
  exponent : ∀ exponent ∈ token.exponent, WrittenDigit.IsPart exponent.digits
  nonempty : token.whole ≠ [] ∨ ∃ digits ∈ token.fraction, digits ≠ []
  isFloat : token.fraction.isSome = true ∨ token.exponent.isSome = true

def decimal (token : FloatToken) : Decimal where
  negative := false
  digits := WrittenDigit.number (token.whole ++ token.fraction.getD [])
  exponent := (token.exponent.elim 0 ExponentPart.value) - (token.fraction.getD []).length

def value (token : FloatToken) : Binary64 := token.decimal.toBinary64

variable {token : FloatToken}

theorem exponent_text_stops {belongs : Char → Bool} (neither : belongs 'e' = false ∧ belongs 'E' = false)
    (token : FloatToken) : Stops belongs token.exponentText := by
  unfold exponentText ExponentPart.text ExponentPart.mark
  split
  next exponent _ => cases exponent.capital <;> simp [neither]
  next => exact stops_nil

theorem fraction_text_stops {belongs : Char → Bool}
    (none : belongs '.' = false ∧ belongs 'e' = false ∧ belongs 'E' = false) (token : FloatToken) :
    Stops belongs (token.fractionText ++ token.exponentText) := by
  unfold fractionText
  split
  · simpa using none.1
  · exact token.exponent_text_stops none.2

theorem mem_characters (token : FloatToken) : ∀ character ∈ token.text, character ∈ numberCharacters := by
  intro character member
  have ofDigits {digits : List (WrittenDigit 10)} (inDigits : character ∈ WrittenDigit.text digits) :
      character ∈ numberCharacters := WrittenDigit.mem_characters (by decide) inDigits
  have ofSign (sign : Option Bool) : ∀ character ∈ Integer.signText sign, character ∈ numberCharacters := by
    match sign with
    | none => simp [Integer.signText]
    | some false => decide
    | some true => decide
  rcases List.mem_append.mp member with whole | behind
  · exact ofDigits whole
  rcases List.mem_append.mp behind with fraction | exponent
  · unfold fractionText at fraction
    split at fraction
    · rcases List.mem_cons.mp fraction with rfl | inDigits
      · decide
      · exact ofDigits inDigits
    · simp at fraction
  · unfold exponentText at exponent
    split at exponent
    next written _ =>
      rcases List.mem_cons.mp exponent with rfl | behind
      · rcases written.mark_cases with same | same <;> rw [same] <;> decide
      rcases List.mem_append.mp behind with sign | inDigits
      · exact ofSign written.sign character sign
      · exact ofDigits inDigits
    next => simp at exponent

theorem text_ne_nil (proper : token.IsProper) : token.text ≠ [] := by
  rcases proper.isFloat with fraction | exponent
  · obtain ⟨digits, same⟩ := Option.isSome_iff_exists.mp fraction
    simp [text, fractionText, same]
  · obtain ⟨exponent, same⟩ := Option.isSome_iff_exists.mp exponent
    simp [text, exponentText, same, ExponentPart.text]

/-! ### Scanning -/

theorem fraction_length (proper : token.IsProper) :
    Lexeme.fractionLength (token.fractionText ++ token.exponentText) = token.fractionText.length := by
  have stops : Stops (fun c => c.isDigit || c = '_') token.exponentText :=
    token.exponent_text_stops (by decide)
  unfold fractionText
  split
  next digits same =>
    rw [List.cons_append, Lexeme.fractionLength,
      WrittenDigit.decimal_length_text digits stops fun _ => proper.fraction digits same, List.length_cons,
      Nat.add_comm]
  next =>
    have noPoint : Stops (· == '.') token.exponentText := token.exponent_text_stops (by decide)
    rw [List.nil_append, Lexeme.fractionLength.eq_def]
    split
    next same => simp [same] at noPoint
    next => rfl

theorem exponent_length (proper : token.IsProper) :
    Lexeme.exponentLength token.exponentText = token.exponentText.length := by
  unfold exponentText
  split
  next exponent same =>
    have isPart := proper.exponent exponent same
    have measured : Lexeme.decimalLength false (WrittenDigit.text exponent.digits ++ []) =
        (WrittenDigit.text exponent.digits).length :=
      WrittenDigit.decimal_length_text exponent.digits stops_nil fun _ => isPart.start
    rw [List.append_nil] at measured
    have filled : (WrittenDigit.text exponent.digits).length ≠ 0 := by
      simpa using WrittenDigit.text_ne_nil isPart.nonempty
    have signLength : Lexeme.letterLength "+-" (Integer.signText exponent.sign ++
        WrittenDigit.text exponent.digits) = (Integer.signText exponent.sign).length := by
      match exponent.sign with
      | none => exact Lexeme.letter_length_stops (WrittenDigit.text_stops isPart (by decide))
      | some false => rfl
      | some true => rfl
    simp [ExponentPart.text, Lexeme.exponentLength, exponent.mark_cases, signLength, measured, filled]
    omega
  next => rfl

theorem number_text (proper : token.IsProper) : Lexeme.number token.text = (.float, token.text.length) := by
  have noMark : Lexeme.radixNumber token.text = 0 := by
    rcases WrittenDigit.empty_or_part proper.whole with empty | isPart
    · obtain ⟨digits, same, -⟩ := proper.nonempty.resolve_left (by simp [empty])
      simp [text, empty, fractionText, Option.mem_def.mp same, WrittenDigit.text, Lexeme.radixNumber]
    · exact WrittenDigit.no_radix_mark isPart (token.fraction_text_stops (by decide))
  have stops : Stops (fun c => c.isDigit || c = '_') (token.fractionText ++ token.exponentText) :=
    token.fraction_text_stops (by decide)
  have measured : Lexeme.decimalLength false token.text = (WrittenDigit.text token.whole).length :=
    WrittenDigit.decimal_length_text token.whole stops fun _ => proper.whole
  have marked : token.fractionText.length + token.exponentText.length ≠ 0 := by
    rcases proper.isFloat with fraction | exponent
    · obtain ⟨digits, same⟩ := Option.isSome_iff_exists.mp fraction
      simp [fractionText, same]
    · obtain ⟨exponent, same⟩ := Option.isSome_iff_exists.mp exponent
      simp [exponentText, same, ExponentPart.text]
  have length : Lexeme.floatLength (WrittenDigit.text token.whole).length
      (token.fractionText ++ token.exponentText) =
        (WrittenDigit.text token.whole).length + (token.fractionText.length + token.exponentText.length) := by
    have front : ¬((WrittenDigit.text token.whole).length = 0 ∧ token.fractionText.length < 2) := by
      rintro ⟨noWhole, short⟩
      rcases proper.nonempty with whole | ⟨digits, same, nonempty⟩
      · exact WrittenDigit.text_ne_nil whole (List.length_eq_zero_iff.mp noWhole)
      · have filled := List.length_pos_iff.mpr (WrittenDigit.text_ne_nil nonempty)
        rw [fractionText, Option.mem_def.mp same, List.length_cons] at short
        omega
    have behind : (token.fractionText ++ token.exponentText).drop
        (token.fractionText.length + token.exponentText.length) = [] := by
      rw [← List.length_append, List.drop_length]
    rw [Lexeme.float_length_eq, fraction_length proper]
    simp only [List.drop_left, exponent_length proper, behind, marked, front, decide_false, Bool.false_or,
      Bool.and_eq_true, decide_eq_true_eq, if_false, Lexeme.letterLength, List.head?_nil, Option.any_none]
    rfl
  rw [Lexeme.number_eq, if_pos noMark, Lexeme.decimalNumber, measured, text, List.drop_left, length]
  simp only [List.length_append]
  rw [if_neg (by omega)]

theorem starts (proper : token.IsProper) {after : List Char} (stops : Stops Lexeme.goesOn after) :
    Lexeme.Starts ⟨.float, token.text⟩ after := by
  have found := number_text proper
  rw [← Lexeme.number_edge token.text (Lexeme.stops_number stops)] at found
  rcases WrittenDigit.empty_or_part proper.whole with empty | isPart
  · obtain ⟨digits, same, -⟩ := proper.nonempty.resolve_left (by simp [empty])
    have point : token.text = '.' :: (WrittenDigit.text digits ++ token.exponentText) := by
      rw [text, empty, fractionText, Option.mem_def.mp same]
      rfl
    refine ⟨'.', _, point, ?_⟩
    rw [point, List.cons_append] at found
    have noOpening :
        Quoted.opening? ('.' :: (WrittenDigit.text digits ++ token.exponentText ++ after)) = none := rfl
    rw [Lexeme.first_visible ⟨by decide, rfl, by decide, by decide, rfl⟩, noOpening]
    dsimp only
    rw [Lexeme.bare, found, if_pos (by simp), point]
  · obtain ⟨first, rest, whole, isDigit⟩ := WrittenDigit.text_starts_with_digit isPart
    have shape : token.text = first :: (rest ++ (token.fractionText ++ token.exponentText)) := by
      rw [text, whole]
      rfl
    refine ⟨first, _, shape, ?_⟩
    rw [shape, List.cons_append] at found
    rw [Lexeme.first_of_digit isDigit found (by simp), shape]

/-! ### Reading -/

def plainText (token : FloatToken) : List Char :=
  token.whole.map WrittenDigit.character ++
    (token.fraction.elim [] (fun digits => '.' :: digits.map WrittenDigit.character) ++
      token.exponent.elim [] ExponentPart.plainText)

theorem drop_underscores_text (token : FloatToken) :
    Literal.dropUnderscores token.text = token.plainText := by
  have digits := @WrittenDigit.drop_underscores_text 10 (by decide)
  have sign (sign : Option Bool) :
      Literal.dropUnderscores (Integer.signText sign) = Integer.signText sign := by
    match sign with
    | none => rfl
    | some false => rfl
    | some true => rfl
  unfold Literal.dropUnderscores at digits sign ⊢
  rw [text, plainText, List.filter_append, List.filter_append, digits]
  congr 2
  · unfold fractionText
    cases token.fraction with
    | none => rfl
    | some fraction => rw [List.filter_cons_of_pos (by decide), digits]; rfl
  · unfold exponentText
    cases token.exponent with
    | none => rfl
    | some exponent =>
        have notUnderscore : exponent.mark ≠ '_' := by
          rcases exponent.mark_cases with same | same <;> simp [same]
        dsimp only [ExponentPart.text, ExponentPart.plainText, Option.elim_some]
        rw [List.filter_cons_of_pos (by simpa using notUnderscore), List.filter_append, sign, digits]

theorem read_exponent (proper : token.IsProper) :
    Decimal.readExponent? (token.exponent.elim [] ExponentPart.plainText) =
      some (token.exponent.elim 0 ExponentPart.value) := by
  cases same : token.exponent with
  | none => rfl
  | some exponent =>
      have isPart := proper.exponent exponent same
      have reads := WrittenDigit.read_digits (fun digit => (WrittenDigit.digit_value (by decide) digit).1) 0
        exponent.digits
      have nonempty : exponent.digits.map WrittenDigit.character ≠ [] := by simpa using isPart.nonempty
      rw [Option.elim_some, ExponentPart.plainText, Decimal.readExponent?, if_pos exponent.mark_cases,
        Integer.read_behind_sign nonempty (WrittenDigit.characters_are_digits exponent.digits) reads]
      rfl

theorem read_unsigned (proper : token.IsProper) :
    Decimal.readUnsigned? false token.plainText = some token.decimal := by
  have stopsExponent : Stops Char.isDigit (token.exponent.elim [] ExponentPart.plainText) := by
    cases token.exponent with
    | none => exact stops_nil
    | some exponent => rcases exponent.mark_cases with same | same <;> simp [ExponentPart.plainText, same]
  have stopsFraction : Stops Char.isDigit (token.fraction.elim [] (fun digits =>
      '.' :: digits.map WrittenDigit.character) ++ token.exponent.elim [] ExponentPart.plainText) := by
    cases token.fraction with
    | none => exact stopsExponent
    | some digits => exact stops_cons.mpr rfl
  have fraction : Numeral.readFraction (token.fraction.elim [] (fun digits =>
      '.' :: digits.map WrittenDigit.character) ++ token.exponent.elim [] ExponentPart.plainText) =
        ((token.fraction.getD []).map WrittenDigit.character,
          token.exponent.elim [] ExponentPart.plainText) := by
    cases token.fraction with
    | some digits => exact span_run (WrittenDigit.characters_are_digits digits) stopsExponent
    | none =>
        cases token.exponent with
        | none => rfl
        | some exponent =>
            rcases exponent.mark_cases with same | same <;>
              simp [ExponentPart.plainText, same, Numeral.readFraction]
  have reads := WrittenDigit.read_digits (fun digit => (WrittenDigit.digit_value (by decide) digit).1) 0
    (token.whole ++ token.fraction.getD [])
  have some : ((token.whole.map WrittenDigit.character).isEmpty &&
      ((token.fraction.getD []).map WrittenDigit.character).isEmpty) = false := by
    rw [Bool.and_eq_false_iff]
    rcases proper.nonempty with whole | ⟨digits, same, nonempty⟩
    · exact .inl (by simpa using whole)
    · exact .inr (by simpa [Option.mem_def.mp same] using nonempty)
  rw [Numeral.read_unsigned_eq, plainText,
    span_run (WrittenDigit.characters_are_digits token.whole) stopsFraction]
  dsimp only
  rw [fraction]
  dsimp only
  rw [some, if_neg (by decide), read_exponent proper, ← List.map_append, reads]
  simp [decimal, WrittenDigit.number]

/-- A token is read as the double-precision number nearest to its numeral. -/
theorem float_text (proper : token.IsProper) : Literal.float? token.text = some token.value := by
  have unsigned : Decimal.read? token.plainText = Decimal.readUnsigned? false token.plainText := by
    rcases WrittenDigit.empty_or_part proper.whole with empty | ⟨first, atHead, -⟩
    · obtain ⟨digits, same, -⟩ := proper.nonempty.resolve_left (by simp [empty])
      rw [plainText, empty, Option.mem_def.mp same]
      rfl
    · obtain ⟨rest, whole⟩ := List.head?_eq_some_iff.mp atHead
      rw [plainText, whole]
      exact Decimal.read_digit first.is_digit _
  rw [Literal.float?, drop_underscores_text, unsigned, read_unsigned proper]
  rfl

end FloatToken

end TaskCab.Source
