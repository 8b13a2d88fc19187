import TaskCab.Proofs.Number.Numeral
import TaskCab.Proofs.Text.Joined
import TaskCab.Proofs.Yaml.OldTexts
import TaskCab.Yaml.Printer

/-!
# Kinds of scalars

Each scalar that is written is of the kind of its value to a reader of the older version: the words and the
numbers match the pattern of their own kind and none that is tried before it.
-/

namespace TaskCab.Yaml.OldReader

open TaskCab.Text Pattern

/-! ## Words and numbers -/

theorem no_digit_of_bool {text : List Char} (matched : boolPattern.rmatch text = true) :
    ∀ character ∈ text, character.isDigit = false := by
  obtain ⟨word, known, rfl⟩ := (one_word_iff _ _).mp matched
  have words : ∀ word ∈ ["yes", "Yes", "YES", "no", "No", "NO", "true", "True", "TRUE", "false", "False",
      "FALSE", "on", "On", "ON", "off", "Off", "OFF"], ∀ c ∈ word.toList, c.isDigit = false := by decide
  exact words word known

theorem point_of_float {text : List Char} (matched : floatPattern.rmatch text = true) : '.' ∈ text := by
  simp only [floatPattern, RegularExpression.add_rmatch_iff, RegularExpression.mul_rmatch_iff,
    word_iff] at matched
  rcases matched with (((⟨_, _, rfl, ⟨_, _, rfl, ⟨_, _, rfl, -, rfl⟩, -⟩, -⟩ |
    ⟨_, _, rfl, ⟨_, _, rfl, ⟨_, _, rfl, rfl, -⟩, -⟩, -⟩) | ⟨_, _, rfl, ⟨_, _, rfl, -, rfl⟩, -⟩) |
      ⟨_, _, rfl, ⟨_, _, rfl, -, rfl⟩, -⟩) | ⟨_, _, rfl, rfl, -⟩ <;> simp

theorem kind_of_float {text : List Char} {digit : Char} (member : digit ∈ text)
    (isDigit : digit.isDigit = true) (matched : floatPattern.rmatch text = true) : kind text = .float := by
  have notBool : boolPattern.rmatch text = false := by
    rw [Bool.eq_false_iff]
    intro isBool
    rw [no_digit_of_bool isBool digit member] at isDigit
    contradiction
  simp [kind, patterns, notBool, matched]

theorem kind_of_int {text : List Char} {digit : Char} (member : digit ∈ text)
    (isDigit : digit.isDigit = true) (noPoint : '.' ∉ text) (matched : intPattern.rmatch text = true) :
    kind text = .int := by
  have notBool : boolPattern.rmatch text = false := by
    rw [Bool.eq_false_iff]
    intro isBool
    rw [no_digit_of_bool isBool digit member] at isDigit
    contradiction
  have notFloat : floatPattern.rmatch text = false := by
    rw [Bool.eq_false_iff]
    intro isFloat
    exact noPoint (point_of_float isFloat)
  simp [kind, patterns, notBool, notFloat, matched]

theorem sign_of_number {front : List Char} (negative : Bool) (same : front = if negative then ['-'] else []) :
    IsSign front := by
  rw [same]
  cases negative with
  | false => exact .inl rfl
  | true => exact .inr (.inr rfl)

theorem exponent_of_numeral {numeral : Numeral} (isNumber : numeral.IsNumber) :
    exponent.rmatch numeral.exponentText = true := by
  unfold Numeral.exponentText
  split
  next sign run same =>
    obtain ⟨isSign, nonempty, areDigits⟩ := isNumber.exponent sign run same
    have mark : sign ∈ "+-".toList := by rcases isSign with rfl | rfl <;> decide
    rw [exponent, optional_iff]
    simp only [RegularExpression.mul_rmatch_iff, one_of_iff, repeated_one_of_iff, digit]
    refine .inl ⟨['e', sign], run, rfl, ⟨['e'], [sign], rfl, ⟨'e', by decide, rfl⟩, sign, mark, rfl⟩,
      nonempty, fun c inRun => mem_decimal (areDigits c inRun)⟩
  · exact exponent_nil

theorem digits_of_decimal {run : List Char} (areDigits : Numeral.IsDigits run) :
    digits.rmatch run = true := by
  have known : ∀ c ∈ "0123456789".toList, c ∈ "0123456789_".toList := by decide
  rw [digits_iff]
  exact fun c member => known c (mem_decimal (areDigits c member))

/-- A numeral with a point is of a float. -/
theorem float_of_numeral {front whole fraction rest : List Char} (isSign : IsSign front)
    (nonempty : whole ≠ []) (areDigits : Numeral.IsDigits whole) (isFraction : Numeral.IsDigits fraction)
    (isExponent : exponent.rmatch rest = true) :
    kind (front ++ whole ++ '.' :: fraction ++ rest) = .float := by
  obtain ⟨first, run, rfl⟩ := List.exists_cons_of_ne_nil nonempty
  obtain ⟨isDigit, isRun⟩ := List.forall_mem_cons.mp areDigits
  have inText : first ∈ front ++ (first :: run) ++ '.' :: fraction ++ rest := by simp
  apply kind_of_float inText isDigit
  simp only [floatPattern, RegularExpression.add_rmatch_iff]
  refine .inl (.inl (.inl (.inl ?_)))
  simp only [RegularExpression.mul_rmatch_iff, word_iff, digit_iff, sign_iff]
  exact ⟨front ++ first :: run ++ '.' :: fraction, rest, by simp, ⟨front ++ first :: run ++ ['.'], fraction,
    by simp, ⟨front ++ first :: run, ['.'], by simp, ⟨front ++ [first], run, by simp, ⟨front, [first], rfl,
      isSign, first, isDigit, rfl⟩, digits_of_decimal isRun⟩, rfl⟩, digits_of_decimal isFraction⟩, isExponent⟩

/-- The text of a finite float, which has a point in front of its exponent. -/
def withPoint (literal : List Char) : List Char :=
  let mantissa := literal.takeWhile (· ≠ 'e')
  let exponent := literal.drop mantissa.length
  if exponent.isEmpty || mantissa.contains '.' then literal else mantissa ++ ['.', '0'] ++ exponent

theorem kind_of_pointed {front : List Char} (isSign : IsSign front) {numeral : Numeral}
    (isNumber : numeral.IsNumber) (isFloat : numeral.IsFloat) :
    kind (withPoint (front ++ numeral.text)) = .float := by
  have isExponent := exponent_of_numeral isNumber
  have notMark {run : List Char} (areDigits : Numeral.IsDigits run) {mark : Char}
      (noDigit : mark.isDigit = false) : mark ∉ run := by
    intro member
    rw [areDigits mark member] at noDigit
    contradiction
  have signs {mark : Char} (noSign : mark ≠ '+' ∧ mark ≠ '-') : mark ∉ front := by
    rcases isSign with rfl | rfl | rfl <;> simp [noSign]
  have stops : Stops (fun c => decide (c ≠ 'e')) numeral.exponentText := by
    unfold Numeral.exponentText
    split <;> simp
  have run : ∀ c ∈ front ++ numeral.whole ++ numeral.fractionText, decide (c ≠ 'e') = true := by
    intro c member
    rw [decide_eq_true_eq]
    rintro rfl
    unfold Numeral.fractionText at member
    split at member <;>
      simp [signs, notMark isNumber.whole.2, notMark isNumber.fraction] at member
  have mantissa := take_while_run run stops
  rw [List.append_assoc, List.append_assoc, ← List.append_assoc numeral.whole, ← Numeral.text] at mantissa
  have parts : (front ++ numeral.text).drop (front ++ numeral.whole ++ numeral.fractionText).length =
      numeral.exponentText := by
    rw [Numeral.text, ← List.append_assoc, ← List.append_assoc, List.drop_left]
  rw [withPoint, mantissa, parts]
  cases fraction : numeral.fraction with
  | nil =>
      have filled : numeral.exponentText.isEmpty = false := by
        have someExponent := isFloat.resolve_left (absurd fraction)
        obtain ⟨parts, same⟩ := Option.isSome_iff_exists.mp someExponent
        simp [Numeral.exponentText, same]
      have noPoint : (front ++ numeral.whole).contains '.' = false := by
        simp [signs, notMark isNumber.whole.2]
      have noFraction : numeral.fractionText = [] := by simp [Numeral.fractionText, fraction]
      rw [noFraction, List.append_nil, filled, noPoint, if_neg (by simp)]
      exact float_of_numeral isSign isNumber.whole.1 isNumber.whole.2 (Numeral.is_digits_zeros 1)
        isExponent
  | cons digit rest =>
      have isFraction := isNumber.fraction
      rw [fraction] at isFraction
      have withFraction : numeral.fractionText = '.' :: digit :: rest := by
        simp [Numeral.fractionText, fraction]
      have kept : (numeral.exponentText.isEmpty ||
          (front ++ numeral.whole ++ numeral.fractionText).contains '.') = true := by
        simp [withFraction]
      have whole : front ++ numeral.text =
          front ++ numeral.whole ++ '.' :: digit :: rest ++ numeral.exponentText := by
        simp [Numeral.text, withFraction]
      rw [if_pos kept, whole]
      exact float_of_numeral isSign isNumber.whole.1 isNumber.whole.2 isFraction isExponent

theorem kind_of_float_text (number : Binary64) : kind (floatText number) = .float := by
  unfold floatText
  by_cases nan : number.isNaN = true
  · rw [if_pos nan]
    decide
  rw [if_neg nan]
  by_cases infinite : number.isInfinite = true
  · rw [if_pos infinite]
    cases number.isNegative <;> decide
  rw [if_neg infinite]
  have finite : number.magnitude < Binary64.infinityMagnitude := by
    simp only [Binary64.isNaN, Binary64.isInfinite, decide_eq_true_eq] at nan infinite
    omega
  obtain ⟨numeral, isNumber, isFloat, text, -⟩ :=
    NumberLayout.spells_unsigned Value.floatLayout rfl rfl finite
  have isSign := sign_of_number number.isNegative rfl
  have rendered : Value.floatLiteral number = (if number.isNegative then ['-'] else []) ++ numeral.text := by
    rw [Value.floatLiteral, if_neg nan, if_neg infinite, NumberLayout.render_eq, text]
  change kind (withPoint (Value.floatLiteral number)) = .float
  rw [rendered]
  exact kind_of_pointed isSign isNumber isFloat

theorem integer_parts (integer : Int) :
    ∃ front, IsSign front ∧ Integer.render integer = front ++ Integer.digits integer.natAbs := by
  unfold Integer.render
  split
  · exact ⟨['-'], .inr (.inr rfl), rfl⟩
  · exact ⟨[], .inl rfl, rfl⟩

theorem int_of_digits (number : Nat) :
    (word "0" + oneOf "123456789" * digits).rmatch (Integer.digits number) = true := by
  rw [RegularExpression.add_rmatch_iff, RegularExpression.mul_rmatch_iff, word_iff]
  by_cases zero : number = 0
  · rw [zero]
    exact .inl rfl
  · have areDigits := Numeral.is_digits_digits number
    have notZero := Integer.first_digit_ne_zero zero
    obtain ⟨first, rest, whole⟩ := List.exists_cons_of_ne_nil (Integer.digits_ne_nil number)
    rw [whole] at areDigits notZero ⊢
    obtain ⟨isDigit, isRest⟩ := List.forall_mem_cons.mp areDigits
    refine .inr ⟨[first], rest, rfl, (one_of_iff _ _).mpr ⟨first, ?_, rfl⟩, digits_of_decimal isRest⟩
    have decimal : first ∈ '0' :: "123456789".toList := mem_decimal isDigit
    rcases List.mem_cons.mp decimal with rfl | later
    · simp at notZero
    · exact later

theorem kind_of_integer (integer : Int) : kind (Integer.render integer) = .int := by
  obtain ⟨front, isSign, parts⟩ := integer_parts integer
  have areDigits := Numeral.is_digits_digits integer.natAbs
  obtain ⟨first, rest, whole⟩ := List.exists_cons_of_ne_nil (Integer.digits_ne_nil integer.natAbs)
  have isDigit : first.isDigit = true := areDigits first (by rw [whole]; exact .head _)
  have inText : first ∈ Integer.render integer := by simp [parts, whole]
  apply kind_of_int inText isDigit
  · rw [parts]
    intro member
    rcases List.mem_append.mp member with inSign | inDigits
    · rcases isSign with rfl | rfl | rfl <;> simp at inSign
    · exact absurd (areDigits '.' inDigits) (by decide)
  · simp only [intPattern, RegularExpression.add_rmatch_iff]
    refine .inl (.inl (.inr ?_))
    rw [RegularExpression.mul_rmatch_iff]
    exact ⟨front, _, parts, (sign_iff front).mpr isSign, int_of_digits integer.natAbs⟩

theorem magnitude_of_digits (number : Nat) : magnitude? (Integer.digits number) = some number := by
  by_cases zero : number = 0
  · rw [zero]
    rfl
  · have notZero := Integer.first_digit_ne_zero zero
    have single : splitWhere (· == ':') (Integer.digits number) = [Integer.digits number] := by
      apply split_where_none
      intro character member
      have isDigit := Integer.is_digit_of_mem_digits member
      rw [beq_eq_false_iff_ne]
      rintro rfl
      contradiction
    have value : magnitude? (Integer.digits number) =
        ((splitWhere (· == ':') (Integer.digits number)).mapM (Integer.readNat? 10)).map fun numbers =>
          numbers.foldl (fun total number => 60 * total + number) 0 := by
      unfold magnitude?
      split
      next same => simp [same] at notZero
      next same => simp [same] at notZero
      next same => simp [same] at notZero
      next same => simp [same] at notZero
      next => rfl
    rw [value, single]
    simp [Integer.read_nat_digits]

theorem integer_of_render (integer : Int) : integer? (Integer.render integer) = some integer := by
  have areDigits := Numeral.is_digits_digits integer.natAbs
  have kept : (Integer.digits integer.natAbs).filter (· ≠ '_') = Integer.digits integer.natAbs := by
    rw [List.filter_eq_self]
    intro character member
    rw [decide_eq_true_eq]
    rintro rfl
    exact absurd (areDigits '_' member) (by decide)
  have magnitude := magnitude_of_digits integer.natAbs
  unfold Integer.render integer?
  by_cases negative : integer < 0
  · rw [if_pos negative, List.filter_cons_of_pos (by decide), kept]
    simp only [magnitude, Option.map_some]
    congr 1
    change -(integer.natAbs : Int) = integer
    omega
  · rw [if_neg negative, kept]
    obtain ⟨first, rest, whole⟩ := List.exists_cons_of_ne_nil (Integer.digits_ne_nil integer.natAbs)
    have isDigit : first.isDigit = true := areDigits first (by rw [whole]; exact .head _)
    rw [whole] at magnitude ⊢
    split
    next same => simp [(List.cons.inj same).1] at isDigit
    next same => simp [(List.cons.inj same).1] at isDigit
    next =>
      rw [magnitude, Option.map_some]
      congr 1
      change (integer.natAbs : Int) = integer
      omega

/-! ## Scalars -/

/-- A text between quotes that are closed nowhere before its end. -/
inductive IsQuoted : List Char → Prop
  | double (body : List Char) (closed : ClosedDouble body) : IsQuoted ('"' :: (body ++ ['"']))
  | single (body : List Char) (closed : ClosedSingle body) : IsQuoted ('\'' :: (body ++ ['\'']))

/-- How a scalar is taken that stands for a value: as one of the same kind, and as the same truth value or
integer. One that stands for a text is quoted, or it is that text and of no other kind. -/
def ReadsAs (scalar : List Char) : Value → Prop
  | .null => kind scalar = .null
  | .bool same => kind scalar = .bool ∧ truth scalar = same
  | .int word => kind scalar = .int ∧ integer? scalar = some word.toInt
  | .float _ => kind scalar = .float
  | .str text => IsQuoted scalar ∨ (scalar = text.toList ∧ IsPlain scalar ∧ kind scalar = .text)
  | .list _ | .map _ => False

theorem reads_as_text {text : String} (ends : text.toList.getLast?.any isBlank = false) :
    ReadsAs (scalar text.toList) (.str text) := by
  rcases scalar_cases text.toList with ⟨escape, forms, written⟩ | ⟨-, written⟩ | ⟨plain, written⟩
  · rw [written]
    exact .inl (.double _ (closed_double_flat_map fun c member => is_piece_of_form (forms c member)))
  · rw [written]
    exact .inl (.single _ (closed_single_flat_map _))
  · have whole := trim_end_of_last ends
    have isPlain := written_is_plain plain
    rw [whole] at written isPlain
    rw [written]
    exact .inr ⟨rfl, isPlain, kind_of_plain plain whole⟩

/-- A reader of the older version takes the text of a scalar for what the value is, except that a text loses
blanks at its end. -/
theorem scalar_reads_as_value {value : Value} (isScalar : value = .null ∨ value.isScalar = true)
    (ends : ∀ text, value = .str text → text.toList.getLast?.any isBlank = false) :
    ReadsAs (scalarText value) value := by
  cases value with
  | null => exact (by decide : kind "null".toList = .null)
  | bool holds =>
      cases holds with
      | false => exact (by decide : kind "false".toList = .bool ∧ truth "false".toList = false)
      | true => exact (by decide : kind "true".toList = .bool ∧ truth "true".toList = true)
  | int word => exact ⟨kind_of_integer word.toInt, integer_of_render word.toInt⟩
  | float number => exact kind_of_float_text number
  | str text => exact reads_as_text (ends text rfl)
  | list items => simp [Value.isScalar] at isScalar
  | map entries => simp [Value.isScalar] at isScalar

theorem sexagesimal_text_reads_as_text :
    ((Value.str "1:30.5").isScalar = true ∧ "1:30.5".toList.getLast?.any isBlank = false) ∧
      ReadsAs (scalarText (.str "1:30.5")) (.str "1:30.5") := by
  refine ⟨by decide, scalar_reads_as_value (.inr rfl) ?_⟩
  rintro text same
  obtain rfl := Value.str.inj same
  decide

end TaskCab.Yaml.OldReader
