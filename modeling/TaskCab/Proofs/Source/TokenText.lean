import TaskCab.Proofs.Number.Numeral
import TaskCab.Proofs.Source.QuotedText
import TaskCab.Proofs.Source.Scanning

/-!
# Where the tokens of literals end

The tokens of a literal are symbols, words, numbers and strings. Each is found again in front of a
comma, a colon, a closing bracket or the end of the text.
-/

namespace TaskCab.Source

open TaskCab.Text

/-- What can come right after a value: the marks behind it in a literal or a signature, or the end of its
line. -/
def endMarks : List Char := ",:]\x7d)\n".toList

def IsEnd (after : List Char) : Prop := ∀ character ∈ after.head?, character ∈ endMarks

theorem is_end_nil : IsEnd [] := by simp [IsEnd]

theorem is_end_cons {character : Char} {rest : List Char} :
    IsEnd (character :: rest) ↔ character ∈ endMarks := by simp [IsEnd]

theorem stops_of_is_end {after : List Char} (isEnd : IsEnd after) {holds : Char → Bool}
    (none : ∀ mark ∈ endMarks, holds mark = false) : Stops holds after :=
  fun character member => none character (isEnd character member)

namespace Lexeme

theorem decimal_length_stops {after : List Char}
    (stops : Stops (fun c => c.isDigit || c = '_') after) (afterDigit : Bool) :
    decimalLength afterDigit after = 0 := by
  cases after with
  | nil => rfl
  | cons character rest =>
      have neither : character.isDigit = false ∧ character ≠ '_' := by simpa using stops
      simp [decimalLength, neither.1, neither.2]

theorem decimal_length_run {digits after : List Char} (areDigits : Numeral.IsDigits digits)
    (stops : Stops (fun c => c.isDigit || c = '_') after) (afterDigit : Bool) :
    decimalLength afterDigit (digits ++ after) = digits.length := by
  induction digits generalizing afterDigit with
  | nil => exact decimal_length_stops stops afterDigit
  | cons digit rest ih =>
      have isDigit := areDigits digit (.head _)
      have later := ih (fun c member => areDigits c (.tail _ member)) true
      simp [decimalLength, isDigit, later, Nat.add_comm]

theorem letter_length_stops {letters : String} {text : List Char}
    (stops : Stops letters.toList.contains text) : letterLength letters text = 0 := by
  cases text with
  | nil => rfl
  | cons character rest =>
      rw [letterLength, List.head?_cons, Option.any_some, stops_cons.mp stops]
      rfl

theorem exponent_length_text {numeral : Numeral} (isNumber : numeral.IsNumber)
    {after : List Char} (isEnd : IsEnd after) :
    exponentLength (numeral.exponentText ++ after) = numeral.exponentText.length := by
  unfold Numeral.exponentText
  split
  next sign digits same =>
    obtain ⟨isSign, nonempty, areDigits⟩ := isNumber.exponent sign digits same
    have stops : Stops (fun c => c.isDigit || c = '_') after :=
      stops_of_is_end isEnd (by decide)
    have length := decimal_length_run areDigits stops false
    have signLength : letterLength "+-" (sign :: (digits ++ after)) = 1 := by
      rcases isSign with rfl | rfl <;> rfl
    simp [exponentLength, signLength, length, nonempty]
    omega
  next =>
    have stops : Stops (fun c => c = 'e' || c = 'E') after := stops_of_is_end isEnd (by decide)
    cases after with
    | nil => rfl
    | cons character rest =>
        have neither : character ≠ 'e' ∧ character ≠ 'E' := by simpa using stops
        simp [exponentLength, neither]

theorem stops_exponent_text {belongs : Char → Bool} (notLetter : belongs 'e' = false)
    (numeral : Numeral) {after : List Char} (stops : Stops belongs after) :
    Stops belongs (numeral.exponentText ++ after) := by
  unfold Numeral.exponentText
  split
  · simpa using notLetter
  · exact stops

theorem stops_fraction_text {belongs : Char → Bool}
    (neither : belongs '.' = false ∧ belongs 'e' = false) (numeral : Numeral) {after : List Char}
    (stops : Stops belongs after) :
    Stops belongs (numeral.fractionText ++ (numeral.exponentText ++ after)) := by
  unfold Numeral.fractionText
  split
  · exact stops_exponent_text neither.2 numeral stops
  · simpa using neither.1

def fractionLength : List Char → Nat
  | '.' :: digits => 1 + decimalLength false digits
  | _ => 0

theorem float_length_eq (whole : Nat) (rest : List Char) :
    floatLength whole rest =
      let fraction := fractionLength rest
      let length := fraction + exponentLength (rest.drop fraction)
      if length = 0 || (whole = 0 && fraction < 2) then 0
      else whole + length + letterLength "jJ" (rest.drop length) := rfl

theorem fraction_length_text {numeral : Numeral} (isNumber : numeral.IsNumber)
    {after : List Char} (isEnd : IsEnd after) :
    fractionLength (numeral.fractionText ++ (numeral.exponentText ++ after)) =
      numeral.fractionText.length := by
  unfold Numeral.fractionText
  split
  · have stops : Stops (· == '.') (numeral.exponentText ++ after) :=
      stops_exponent_text rfl numeral (stops_of_is_end isEnd (by decide))
    rw [List.nil_append, fractionLength.eq_def]
    split
    next same => simp [same] at stops
    next => rfl
  · have stops : Stops (fun c => c.isDigit || c = '_') (numeral.exponentText ++ after) :=
      stops_exponent_text rfl numeral (stops_of_is_end isEnd (by decide))
    simp [fractionLength, decimal_length_run isNumber.fraction stops, Nat.add_comm]

theorem float_length_text {numeral : Numeral} (isNumber : numeral.IsNumber)
    {after : List Char} (isEnd : IsEnd after) {whole : Nat} (positive : whole ≠ 0) :
    floatLength whole (numeral.fractionText ++ (numeral.exponentText ++ after)) =
      if numeral.fractionText.length + numeral.exponentText.length = 0 then 0
      else whole + (numeral.fractionText.length + numeral.exponentText.length) := by
  have suffix : letterLength "jJ" after = 0 :=
    letter_length_stops (stops_of_is_end isEnd (by decide))
  have afterLength : (numeral.fractionText ++ (numeral.exponentText ++ after)).drop
      (numeral.fractionText.length + numeral.exponentText.length) = after := by
    rw [← List.append_assoc, ← List.length_append, List.drop_left]
  rw [float_length_eq, fraction_length_text isNumber isEnd]
  simp only [List.drop_left, exponent_length_text isNumber isEnd, afterLength, suffix]
  simp [positive]

def radixNumber : List Char → Nat
  | '0' :: mark :: rest =>
      if mark = 'x' || mark = 'X' then markedLength 16 rest
      else if mark = 'o' || mark = 'O' then markedLength 8 rest
      else if mark = 'b' || mark = 'B' then markedLength 2 rest
      else 0
  | _ => 0

theorem number_eq (text : List Char) :
    number text =
      if radixNumber text = 0 then decimalNumber text else (.integer, radixNumber text) := by
  unfold number radixNumber
  rfl

theorem radix_number_text {first : Char} {rest : List Char}
    (stops : Stops "xXoObB".toList.contains rest) : radixNumber (first :: rest) = 0 := by
  unfold radixNumber
  split
  next mark more same =>
    obtain ⟨rfl, rfl⟩ := List.cons.inj same
    have none : ¬(mark = 'x' ∨ mark = 'X' ∨ mark = 'o' ∨ mark = 'O' ∨ mark = 'b' ∨ mark = 'B') := by
      simpa using stops
    simp only [not_or] at none
    simp [none]
  next => rfl

theorem radix_number_digits {digits after : List Char} (nonempty : digits ≠ [])
    (areDigits : Numeral.IsDigits digits) (stops : Stops "xXoObB".toList.contains after) :
    radixNumber (digits ++ after) = 0 := by
  obtain ⟨first, rest, rfl⟩ := List.exists_cons_of_ne_nil nonempty
  rw [List.cons_append]
  apply radix_number_text
  cases rest with
  | nil => exact stops
  | cons digit more =>
      have isDigit := areDigits digit (by simp)
      rw [List.cons_append, stops_cons]
      refine Bool.eq_false_iff.mpr fun letter => ?_
      have cases : digit = 'x' ∨ digit = 'X' ∨ digit = 'o' ∨ digit = 'O' ∨ digit = 'b' ∨
          digit = 'B' := by simpa using List.contains_iff_mem.mp letter
      rcases cases with rfl | rfl | rfl | rfl | rfl | rfl <;> simp at isDigit

/-- A numeral is one number: of a float with a point or an exponent, otherwise of an integer. -/
theorem number_text {numeral : Numeral} (isNumber : numeral.IsNumber) {after : List Char}
    (isEnd : IsEnd after) :
    number (numeral.text ++ after) =
      (if numeral.fractionText.length + numeral.exponentText.length = 0 then .integer else .float,
        numeral.text.length) := by
  obtain ⟨nonempty, areDigits⟩ := isNumber.whole
  have ends {belongs : Char → Bool} (neither : belongs '.' = false ∧ belongs 'e' = false)
      (none : ∀ mark ∈ endMarks, belongs mark = false) :=
    stops_fraction_text neither numeral (stops_of_is_end isEnd none)
  have noMark : radixNumber (numeral.text ++ after) = 0 := by
    rw [Numeral.text, List.append_assoc, List.append_assoc]
    exact radix_number_digits nonempty areDigits (ends ⟨rfl, rfl⟩ (by decide))
  have length : decimalLength false (numeral.text ++ after) = numeral.whole.length := by
    rw [Numeral.text, List.append_assoc, List.append_assoc]
    exact decimal_length_run areDigits (ends ⟨rfl, rfl⟩ (by decide)) false
  have remaining : (numeral.text ++ after).drop numeral.whole.length =
      numeral.fractionText ++ (numeral.exponentText ++ after) := by
    rw [Numeral.text, List.append_assoc, List.append_assoc, List.drop_left]
  have positive : numeral.whole.length ≠ 0 := by simpa using nonempty
  have suffix : letterLength "lLjJ" (numeral.fractionText ++ (numeral.exponentText ++ after)) = 0 :=
    letter_length_stops (ends ⟨rfl, rfl⟩ (by decide))
  rw [number_eq, if_pos noMark, decimalNumber, length, remaining,
    float_length_text isNumber isEnd positive]
  simp only [positive, suffix, Numeral.text, List.length_append, if_false]
  by_cases none : numeral.fractionText.length + numeral.exponentText.length = 0
  · simp only [none, if_true]
    congr 1
    omega
  · rw [if_neg none, if_neg none, if_neg (by omega)]
    congr 1
    omega

theorem no_opening_of_digit {digit : Char} (isDigit : digit.isDigit = true) (rest : List Char) :
    Quoted.opening? (digit :: rest) = none := by
  have differs {letter : Char} (notDigit : letter.isDigit = false) : digit ≠ letter := by
    rintro rfl
    simp [notDigit] at isDigit
  have noFlag : Quoted.isFlag digit = false := by
    simp [Quoted.isFlag, @differs 'r' rfl, @differs 'R' rfl, @differs 'u' rfl, @differs 'U' rfl,
      @differs 'b' rfl, @differs 'B' rfl, @differs 'f' rfl, @differs 'F' rfl]
  have noMark : Quoted.isMark digit = false := by
    simp [Quoted.isMark, @differs '\'' rfl, @differs '"' rfl, @differs '`' rfl]
  simp [Quoted.opening?, noFlag, noMark]

theorem first_of_digit {digit : Char} (isDigit : digit.isDigit = true) {rest : List Char}
    {kind : LexemeKind} {length : Nat} (found : number (digit :: rest) = (kind, length))
    (positive : length ≠ 0) : first digit rest = (kind, length) := by
  have differs {letter : Char} (notDigit : letter.isDigit = false) : digit ≠ letter := by
    rintro rfl
    simp [notDigit] at isDigit
  have notBlank : isBlank digit = false := by
    simp [isBlank, @differs ' ' rfl, @differs '\t' rfl, @differs '\r' rfl, @differs '\x0c' rfl]
  have seen : isUnseen digit = false := by
    simp [isUnseen, @differs '\x0b' rfl, @differs '\ufeff' rfl, @differs '\u200b' rfl,
      @differs '\u2060' rfl]
  unfold first
  simp only [@differs '\n' rfl, if_false, notBlank, Bool.false_eq_true, @differs '#' rfl,
    @differs '\\' rfl, seen, no_opening_of_digit isDigit, found]
  simp [positive]

theorem starts_number {numeral : Numeral} (isNumber : numeral.IsNumber) {after : List Char}
    (isEnd : IsEnd after) :
    Starts ⟨if numeral.fractionText.length + numeral.exponentText.length = 0 then .integer
      else .float, numeral.text⟩ after := by
  have found := number_text isNumber isEnd
  obtain ⟨digit, rest, whole⟩ := List.exists_cons_of_ne_nil isNumber.whole.1
  have isDigit : digit.isDigit = true := isNumber.whole.2 digit (by simp [whole])
  have text : numeral.text = digit :: (rest ++ numeral.fractionText ++ numeral.exponentText) := by
    simp [Numeral.text, whole]
  refine ⟨digit, _, text, first_of_digit isDigit ?_ (by simp [text])⟩
  rw [← List.cons_append, ← text, found]

theorem starts_digits {digits : List Char} (nonempty : digits ≠ [])
    (areDigits : Numeral.IsDigits digits) {after : List Char} (isEnd : IsEnd after) :
    Starts ⟨.integer, digits⟩ after := by
  have starts := @starts_number ⟨digits, [], none⟩ ⟨⟨nonempty, areDigits⟩, by simp [Numeral.IsDigits],
    by simp⟩ after isEnd
  simpa [Numeral.text, Numeral.fractionText, Numeral.exponentText] using starts

theorem starts_pointed {whole fraction : List Char} (nonempty : whole ≠ [])
    (areDigits : Numeral.IsDigits whole) (isFraction : Numeral.IsDigits fraction) {after : List Char}
    (isEnd : IsEnd after) : Starts ⟨.float, whole ++ '.' :: fraction⟩ after := by
  have ends : Stops (fun c => c.isDigit || c = '_') after := stops_of_is_end isEnd (by decide)
  have noExponent : exponentLength after = 0 :=
    @exponent_length_text ⟨whole, fraction, none⟩ ⟨⟨nonempty, areDigits⟩, isFraction, by simp⟩ after isEnd
  have suffix : letterLength "jJ" after = 0 := letter_length_stops (stops_of_is_end isEnd (by decide))
  have positive : whole.length ≠ 0 := by simpa using nonempty
  have length : decimalLength false (whole ++ '.' :: (fraction ++ after)) = whole.length :=
    decimal_length_run areDigits (by simp) false
  have noMark : radixNumber (whole ++ '.' :: (fraction ++ after)) = 0 :=
    radix_number_digits nonempty areDigits (by simp)
  have fractionRead : fractionLength ('.' :: (fraction ++ after)) = 1 + fraction.length := by
    rw [fractionLength, decimal_length_run isFraction ends]
  have remaining : ('.' :: (fraction ++ after)).drop (1 + fraction.length) = after := by
    rw [Nat.add_comm, List.drop_succ_cons, List.drop_left]
  have floatRead : floatLength whole.length ('.' :: (fraction ++ after)) =
      whole.length + (1 + fraction.length) := by
    rw [float_length_eq, fractionRead]
    simp [remaining, noExponent, suffix, positive]
  have found : number (whole ++ '.' :: (fraction ++ after)) =
      (.float, whole.length + (1 + fraction.length)) := by
    rw [number_eq, if_pos noMark, decimalNumber, length, List.drop_left, floatRead]
    simp [positive]
  obtain ⟨digit, rest, rfl⟩ := List.exists_cons_of_ne_nil nonempty
  refine ⟨digit, rest ++ '.' :: fraction, rfl, ?_⟩
  rw [List.append_assoc, List.cons_append]
  apply first_of_digit (areDigits digit (.head _)) ?_ (by simp)
  have total : (digit :: rest).length + (1 + fraction.length) =
      (digit :: (rest ++ '.' :: fraction)).length := by
    simp only [List.length_cons, List.length_append]
    omega
  rw [← List.cons_append, found, total]
  rfl

theorem starts_float {text : List Char} {magnitude : Nat} (spells : Numeral.Spells text magnitude)
    {after : List Char} (isEnd : IsEnd after) : Starts ⟨.float, text⟩ after := by
  obtain ⟨numeral, isNumber, isFloat, rfl, -⟩ := spells
  have starts := starts_number isNumber isEnd
  have marked : numeral.fractionText.length + numeral.exponentText.length ≠ 0 := by
    unfold Numeral.fractionText Numeral.exponentText
    rcases isFloat with fraction | exponent
    · simp [fraction]
    · obtain ⟨written, same⟩ := Option.isSome_iff_exists.mp exponent
      simp [same]
  rwa [if_neg marked] at starts

theorem starts_text_literal {text : List Char} (noNull : '\x00' ∉ text) {after : List Char}
    (isEnd : IsEnd after) : Starts ⟨.string, Value.textLiteral text⟩ after := by
  have notQuote (quote : Char) (isQuote : Quoted.IsQuote quote) : after.head? ≠ some quote := by
    intro isHead
    have ends := isEnd quote isHead
    rcases isQuote with rfl | rfl <;> exact absurd ends (by decide)
  have isQuote := Quoted.is_quote_quote_for text
  have length := Quoted.length_text_literal noNull notQuote
  have opening := Quoted.opening_text_literal isQuote text (notQuote _ isQuote)
  refine ⟨_, _, Quoted.text_literal_eq text, ?_⟩
  rw [Quoted.text_literal_eq] at length ⊢
  simp only [List.cons_append, List.append_assoc, List.nil_append] at length ⊢
  generalize Value.quoteFor text = quote at isQuote length opening ⊢
  rcases isQuote with rfl | rfl <;> simp [first, isBlank, isUnseen, opening, length]

theorem starts_mark {symbol : Char}
    (mark : symbol = '(' ∨ symbol = ')' ∨ symbol = '[' ∨ symbol = ']' ∨ symbol = '\x7b' ∨
      symbol = '\x7d' ∨ symbol = ',')
    (after : List Char) : Starts ⟨.symbol, [symbol]⟩ after := by
  refine ⟨symbol, [], rfl, ?_⟩
  rcases mark with rfl | rfl | rfl | rfl | rfl | rfl | rfl <;> rfl

theorem starts_sign {symbol : Char} (sign : symbol = ':' ∨ symbol = '=' ∨ symbol = '+') {after : List Char}
    (stops : Stops (· == '=') after) : Starts ⟨.symbol, [symbol]⟩ after := by
  refine ⟨symbol, [], rfl, ?_⟩
  have length : symbolLength (symbol :: after) = 1 := by
    cases after with
    | nil => rcases sign with rfl | rfl | rfl <;> rfl
    | cons character rest =>
        have different : character ≠ '=' := by simpa using stops
        rcases sign with rfl | rfl | rfl <;>
          simp [symbolLength, longSymbols, List.isPrefixOf, different.symm]
  have found : first symbol ([] ++ after) = (.symbol, symbolLength (symbol :: after)) := by
    rcases sign with rfl | rfl | rfl <;> rfl
  rw [found, length]
  rfl

/-- The words that are literals, or that floats are written with. -/
def IsLiteralWord (word : List Char) : Prop :=
  word = "None".toList ∨ word = "True".toList ∨ word = "False".toList ∨ word = "nan".toList ∨
    word = "inf".toList

theorem starts_letters {character : Char} {rest : List Char}
    (found : ∀ after, first character (rest ++ after) =
      (.word, 1 + ((rest ++ after).takeWhile isWordPart).length))
    (letters : ∀ c ∈ rest, isWordPart c = true) {after : List Char} (stops : Stops isWordPart after) :
    Starts ⟨.word, character :: rest⟩ after := by
  refine ⟨character, rest, rfl, ?_⟩
  rw [found, take_while_run letters stops, List.length_cons, Nat.add_comm]

theorem starts_word {word : List Char} (isWord : IsLiteralWord word) {after : List Char}
    (isEnd : IsEnd after) : Starts ⟨.word, word⟩ after := by
  have stops : Stops isWordPart after := stops_of_is_end isEnd (by decide)
  rcases isWord with rfl | rfl | rfl | rfl | rfl <;>
    exact starts_letters (fun _ => rfl) (by decide) stops

theorem starts_minus {after : List Char} (stops : Stops (fun c => c = '>' || c = '=') after) :
    Starts ⟨.symbol, ['-']⟩ after := by
  refine ⟨'-', [], rfl, ?_⟩
  have length : symbolLength ('-' :: after) = 1 := by
    cases after with
    | nil => rfl
    | cons character rest =>
        have neither : character ≠ '>' ∧ character ≠ '=' := by simpa using stops
        simp [symbolLength, longSymbols, List.isPrefixOf, neither.1.symm, neither.2.symm]
  have found : first '-' ([] ++ after) = (.symbol, symbolLength ('-' :: after)) := rfl
  rw [found, length]
  rfl

end Lexeme

end TaskCab.Source
