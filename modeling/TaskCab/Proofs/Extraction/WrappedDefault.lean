import TaskCab.Proofs.Extraction.LiteralDefault
import TaskCab.Proofs.Value.ConstructorCall
import TaskCab.Proofs.Value.SignedNumber

/-!
# Shortcuts of signature defaults

The reader of signature defaults takes wrapped truth values, and `float` and `int` calls around a plain number,
without decoding the text. The calls have the value that decoding gives, down to the sign of a zero. Wrapped
truth values are taken from anywhere in the text, so they are what decoding gives only where the text is a list
of just those values.
-/

namespace TaskCab

namespace SignatureDefault

open TaskCab.Text TaskCab.Source TaskCab.Value

/-- A text is free of wrapped truth values exactly if none is taken from it. -/
theorem wrapped_bools_nil_iff (text : List Char) : wrappedBools 0 text = [] ↔ mentionsBool text = false := by
  induction text with
  | nil => simp [wrappedBools, mentionsBool, occurs]
  | cons character rest ih =>
      have step : mentionsBool (character :: rest) = false ↔
          wrappedBool? (character :: rest) = none ∧ mentionsBool rest = false := by
        rw [wrapped_bool_none_iff]
        simp only [mentionsBool, List.map_cons, occurs, Bool.or_eq_false_iff]
        exact and_and_and_comm
      rw [step, ← ih, wrappedBools]
      cases wrappedBool? (character :: rest) <;> simp

/-! ## Arguments -/

theorem signed_cases (text : List Char) :
    ∃ negative : Bool, text = (if negative then ['-'] else []) ++ (afterStart? ['-'] text).getD text := by
  cases found : afterStart? ['-'] text with
  | none => exact ⟨false, rfl⟩
  | some rest => exact ⟨true, (after_start_iff _ _ _).mp found⟩

theorem plain_int_cases {text : List Char} (plain : isPlainInt text = true) :
    ∃ (negative : Bool) (digits : List Char), digits ≠ [] ∧ Numeral.IsDigits digits ∧
      text = (if negative then ['-'] else []) ++ digits := by
  obtain ⟨negative, parts⟩ := signed_cases text
  simp only [isPlainInt, Bool.and_eq_true, Bool.not_eq_true', List.isEmpty_eq_false_iff,
    List.all_eq_true] at plain
  exact ⟨negative, _, plain.1, plain.2, parts⟩

theorem plain_float_cases {text : List Char} (plain : isPlainFloat text = true) :
    ∃ (negative : Bool) (whole tail : List Char), whole ≠ [] ∧ Numeral.IsDigits whole ∧
      (tail = [] ∨ ∃ fraction, Numeral.IsDigits fraction ∧ tail = '.' :: fraction) ∧
        text = (if negative then ['-'] else []) ++ (whole ++ tail) := by
  obtain ⟨negative, parts⟩ := signed_cases text
  unfold isPlainFloat at plain
  generalize (afterStart? ['-'] text).getD text = unsigned at plain parts
  simp only [Bool.and_eq_true, Bool.not_eq_true', List.isEmpty_eq_false_iff] at plain
  obtain ⟨nonempty, tailDigits⟩ := plain
  have isWhole : Numeral.IsDigits (unsigned.takeWhile Char.isDigit) := fun c member =>
    List.mem_takeWhile_imp member
  have split := List.takeWhile_append_dropWhile (p := Char.isDigit) (l := unsigned)
  rw [drop_take_while] at tailDigits
  rw [← split] at parts
  refine ⟨negative, _, _, nonempty, isWhole, ?_, parts⟩
  cases found : afterStart? ['.'] (unsigned.dropWhile Char.isDigit) with
  | some fraction =>
      rw [found, Option.getD_some, List.all_eq_true] at tailDigits
      exact .inr ⟨fraction, tailDigits, (after_start_iff _ _ _).mp found⟩
  | none =>
      rw [found, Option.getD_none] at tailDigits
      left
      cases dropped : unsigned.dropWhile Char.isDigit with
      | nil => rfl
      | cons character more =>
          have stops := List.head_dropWhile_not Char.isDigit (l := unsigned) (by rw [dropped]; simp)
          simp [dropped] at stops tailDigits
          simp [tailDigits.1] at stops

theorem text_of_argument {name : String} {text argument : List Char}
    (found : argument? name text = some argument) : text = name.toList ++ '(' :: argument ++ [')'] := by
  unfold argument? at found
  simp only [Option.bind_eq_bind, Option.bind_eq_some_iff] at found
  obtain ⟨rest, after, inner⟩ := found
  rw [after_start_iff] at after
  split at inner
  next closing =>
    obtain rfl := Option.some.inj inner
    have whole := List.dropLast_append_getLast? ')' closing
    rw [after, List.append_assoc, List.append_assoc]
    simp [whole]
  next => simp at inner

/-! ## Calls -/

/-- A `float` call around a negative integer of zeros alone, which has no sign as an integer. -/
def IsMinusZero (text : List Char) : Prop :=
  ∃ zeros, zeros ≠ [] ∧ (∀ character ∈ zeros, character = '0') ∧
    text = "float(-".toList ++ zeros ++ [')']

/-- A call around digits that is read has a word to convert, with the sign that stands in front of them. -/
theorem word_of_call_digits {name digits : List Char} (isName : IsConstructor name) (nonempty : digits ≠ [])
    (areDigits : Numeral.IsDigits digits) {magnitude : Nat}
    (reads : Integer.readDigits? 10 0 digits = some magnitude) {negative : Bool} {value : Value}
    (read : Literal.read? (name ++ '(' :: ((if negative then ['-'] else []) ++ digits) ++ [')']) = some value) :
    ∃ word : Int64, word.toInt = (if negative then -(magnitude : Int) else magnitude) ∧
      magnitude < 2 ^ 64 ∧ Literal.construct? name (.int word) = some value := by
  rw [read_call_digits isName nonempty areDigits reads, Option.bind_eq_some_iff] at read
  obtain ⟨argument, isArgument, constructs⟩ := read
  cases isWord : Integer.word? magnitude with
  | none => cases negative <;> simp [isWord] at isArgument
  | some word =>
      have whole := Integer.to_int_of_word isWord
      have bound : magnitude < 2 ^ 64 := by
        have upper := word.toInt_lt
        omega
      rw [isWord] at isArgument
      cases negative with
      | false =>
          obtain rfl : Value.int word = argument := Option.some.inj isArgument
          exact ⟨word, whole, bound, constructs⟩
      | true =>
          have negated : Literal.negate? (.int word) = some argument := isArgument
          rw [Literal.negate?, whole, Option.map_eq_some_iff] at negated
          obtain ⟨opposite, isOpposite, rfl⟩ := negated
          exact ⟨opposite, Integer.to_int_of_word isOpposite, bound, constructs⟩

theorem int_shortcut {text : List Char} {found value : Value} (shortcut : wrappedInt? text = some found)
    (read : Literal.read? text = some value) : found = value := by
  simp only [wrappedInt?, Option.bind_eq_bind, Option.bind_eq_some_iff] at shortcut
  obtain ⟨argument, isArgument, number⟩ := shortcut
  split at number
  case isFalse => simp at number
  case isTrue plain =>
    obtain ⟨negative, digits, nonempty, areDigits, rfl⟩ := plain_int_cases plain
    obtain ⟨magnitude, reads, -⟩ := Integer.read_digits_run areDigits 0
    have isName : IsConstructor "int".toList := .inr (.inl rfl)
    rw [text_of_argument isArgument] at read
    obtain ⟨word, signed, -, constructs⟩ := word_of_call_digits isName nonempty areDigits reads read
    rw [Integer.readWord?, Integer.read_signed nonempty areDigits reads, Option.bind_some,
      Integer.word_of_to_int signed] at number
    exact (Option.some.inj number).symm.trans (Option.some.inj constructs)

theorem float_shortcut_digits {digits : List Char} (nonempty : digits ≠ [])
    (areDigits : Numeral.IsDigits digits) {negative : Bool} {number : Binary64} {value : Value}
    (parsed : Binary64.read? ((if negative then ['-'] else []) ++ digits) = some number)
    (read : Literal.read? ("float".toList ++ '(' :: ((if negative then ['-'] else []) ++ digits) ++ [')']) =
      some value) :
    .float number = value ↔ ¬(negative = true ∧ ∀ character ∈ digits, character = '0') := by
  obtain ⟨magnitude, reads, zero⟩ := Integer.read_digits_run areDigits 0
  have zeros : magnitude = 0 ↔ ∀ character ∈ digits, character = '0' := by simpa using zero
  have isName : IsConstructor "float".toList := .inr (.inr (.inl rfl))
  obtain ⟨word, signed, bound, constructs⟩ := word_of_call_digits isName nonempty areDigits reads read
  obtain ⟨first, rest, parts⟩ := List.exists_cons_of_ne_nil nonempty
  have isDigit : first.isDigit = true := areDigits first (by rw [parts]; exact .head _)
  rw [parts, Binary64.read_digit isDigit, ← parts,
    Decimal.read_unsigned_digits nonempty areDigits reads, Option.map_some] at parsed
  obtain rfl := Option.some.inj parsed
  obtain rfl : Value.float (.ofInt word.toInt) = value := Option.some.inj constructs
  rw [← zeros, ← Decimal.to_binary64_integer bound negative, signed, Value.float.injEq]

theorem float_shortcut_pointed {whole fraction : List Char} (nonempty : whole ≠ [])
    (areDigits : Numeral.IsDigits whole) (isFraction : Numeral.IsDigits fraction) {negative : Bool}
    {number : Binary64} {value : Value}
    (parsed : Binary64.read? ((if negative then ['-'] else []) ++ (whole ++ '.' :: fraction)) = some number)
    (read : Literal.read? ("float".toList ++
      '(' :: ((if negative then ['-'] else []) ++ (whole ++ '.' :: fraction)) ++ [')']) = some value) :
    .float number = value := by
  have isName : IsConstructor "float".toList := .inr (.inr (.inl rfl))
  rw [read_call_pointed isName nonempty areDigits isFraction] at read
  obtain ⟨first, rest, parts⟩ := List.exists_cons_of_ne_nil nonempty
  have isDigit : first.isDigit = true := areDigits first (by rw [parts]; exact .head _)
  have front : whole ++ '.' :: fraction = first :: (rest ++ '.' :: fraction) := by rw [parts]; rfl
  obtain ⟨numeral, split⟩ := Decimal.read_unsigned_parts (whole ++ '.' :: fraction)
  have unsigned : Literal.float? (whole ++ '.' :: fraction) =
      (Decimal.readUnsigned? false (whole ++ '.' :: fraction)).map Decimal.toBinary64 := by
    have kept : Literal.dropUnderscores (whole ++ '.' :: fraction) = whole ++ '.' :: fraction := by
      rw [Literal.dropUnderscores, List.filter_append, List.filter_cons_of_pos (by decide)]
      exact congrArg₂ _ (Literal.drop_underscores_digits areDigits)
        (congrArg _ (Literal.drop_underscores_digits isFraction))
    rw [Literal.float?, kept, front, Decimal.read_digit isDigit]
  rw [front, Binary64.read_digit isDigit, ← front, split] at parsed
  rw [unsigned, split] at read
  cases numeral with
  | none => simp at parsed
  | some parts =>
      simp only [Option.map_some] at parsed read
      obtain rfl := Option.some.inj parsed
      cases negative with
      | false => exact Option.some.inj read
      | true =>
          rw [Decimal.to_binary64_negative]
          exact Option.some.inj read

theorem float_shortcut {text : List Char} {found value : Value} (shortcut : wrappedFloat? text = some found)
    (read : Literal.read? text = some value) : found = value ↔ ¬IsMinusZero text := by
  simp only [wrappedFloat?, Option.bind_eq_bind, Option.bind_eq_some_iff] at shortcut
  obtain ⟨argument, isArgument, number⟩ := shortcut
  split at number
  case isFalse => simp at number
  case isTrue plain =>
    obtain ⟨parsed, isNumber, rfl⟩ := Option.map_eq_some_iff.mp number
    obtain ⟨negative, whole, tail, nonempty, areDigits, isTail, rfl⟩ := plain_float_cases plain
    have written := text_of_argument isArgument
    rw [written] at read
    rcases isTail with rfl | ⟨fraction, isFraction, rfl⟩
    · rw [List.append_nil] at isNumber read written
      rw [float_shortcut_digits nonempty areDigits isNumber read, written]
      apply not_congr
      constructor
      · rintro ⟨rfl, zeros⟩
        exact ⟨whole, nonempty, zeros, by simp⟩
      · rintro ⟨zeros, -, each, same⟩
        cases negative with
        | false =>
            have ends : whole ++ [')'] = '-' :: zeros ++ [')'] := by simpa using same
            have minus := List.append_cancel_right ends
            rw [minus] at areDigits
            exact absurd (areDigits '-' (.head _)) (by decide)
        | true =>
            obtain rfl : whole = zeros := by simpa using same
            exact ⟨rfl, each⟩
    · have pointed := float_shortcut_pointed nonempty areDigits isFraction isNumber read
      refine iff_of_true pointed ?_
      rintro ⟨zeros, -, each, same⟩
      have point : '.' ∈ text := by simp [written]
      have noPoint : '.' ∉ zeros := fun member => absurd (each '.' member) (by decide)
      rw [same] at point
      simp [noPoint] at point

theorem float_shortcut_of_minus_zero {text : List Char} (minusZero : IsMinusZero text) :
    (wrappedFloat? text).isSome = true := by
  obtain ⟨zeros, nonempty, each, rfl⟩ := minusZero
  have areDigits : Numeral.IsDigits zeros := fun c member => by
    rw [each c member]
    rfl
  have isArgument : argument? "float" ("float(-".toList ++ zeros ++ [')']) = some ('-' :: zeros) := by
    have after : afterStart? ("float".toList ++ ['(']) ("float(-".toList ++ zeros ++ [')']) =
        some ('-' :: zeros ++ [')']) := (after_start_iff _ _ _).mpr (by simp)
    simp only [argument?, after, Option.bind_eq_bind, Option.bind_some]
    rw [List.getLast?_concat, List.dropLast_concat, if_pos rfl]
  have plain : isPlainFloat ('-' :: zeros) = true := by
    have run : zeros.takeWhile Char.isDigit = zeros := by
      simpa using @take_while_run Char.isDigit zeros [] areDigits stops_nil
    simp [isPlainFloat, afterStart?, run, nonempty]
  obtain ⟨magnitude, reads, -⟩ := Integer.read_digits_run areDigits 0
  obtain ⟨first, rest, parts⟩ := List.exists_cons_of_ne_nil nonempty
  have isDigit : first.isDigit = true := areDigits first (by rw [parts]; exact .head _)
  have parsed := Binary64.read_digit isDigit rest true
  rw [← parts, Decimal.read_unsigned_digits nonempty areDigits reads] at parsed
  rw [if_pos rfl, List.singleton_append] at parsed
  simp only [wrappedFloat?, isArgument, Option.bind_eq_bind, Option.bind_some, plain, parsed]
  rfl

theorem decoded_eq_given_iff {found : Value} (present : found ≠ .null) (value : Value) :
    some (.decoded found) = given? value ↔ found = value := by
  cases value with
  | null => simp [given?, present]
  | bool | int | float | str | list | map => simp [given?]

theorem shortcut_present {text : List Char} {found : Value}
    (shortcut : wrappedFloat? text = some found ∨ wrappedInt? text = some found) : found ≠ .null := by
  rintro rfl
  simp only [wrappedFloat?, wrappedInt?, Option.bind_eq_bind, Option.bind_eq_some_iff] at shortcut
  rcases shortcut with ⟨argument, -, number⟩ | ⟨argument, -, number⟩ <;> split at number <;> simp at number

theorem readable_of_decoded {text : List Char} {value : Value}
    (decoded : Literal.decode text = .decoded value) : Literal.read? (trim text) = some value := by
  unfold Literal.read?
  rw [trim_trim]
  change Literal.read? text = some value
  unfold Literal.decode at decoded
  split at decoded
  next other found => rw [found, SourceValue.decoded.inj decoded]
  next => simp at decoded

/-- A text that speaks of a wrapped truth value is read as the list of those in it. -/
theorem read_mentioned_iff {text : List Char} (mentions : mentionsBool (trim text) = true) (value : Value) :
    read text = given? value ↔ value = .list ((wrappedBools 0 (trim text)).map .bool) := by
  unfold read
  dsimp only
  cases bools : wrappedBools 0 (trim text) with
  | nil =>
      rw [wrapped_bools_nil_iff] at bools
      rw [bools] at mentions
      contradiction
  | cons truth truths =>
      cases value <;> simp [given?, eq_comm]

/-- Any other text is read as the decoded value, whether or not a shortcut reads it, unless the shortcut for
`float` takes it for a negative zero. -/
theorem read_unmentioned_iff {text : List Char} {value : Value}
    (readable : Literal.read? (trim text) = some value) (mentions : mentionsBool (trim text) = false) :
    read text = given? value ↔ ¬IsMinusZero (trim text) := by
  unfold read
  dsimp only
  rw [(wrapped_bools_nil_iff _).mpr mentions]
  dsimp only
  cases isFloat : wrappedFloat? (trim text) with
  | some found =>
      rw [← float_shortcut isFloat readable]
      exact decoded_eq_given_iff (shortcut_present (.inl isFloat)) value
  | none =>
      have noMinus : ¬IsMinusZero (trim text) := by
        intro minusZero
        have present := float_shortcut_of_minus_zero minusZero
        rw [isFloat] at present
        contradiction
      cases isInt : wrappedInt? (trim text) with
      | some found =>
          have given := decoded_eq_given_iff (shortcut_present (.inr isInt)) value
          exact iff_of_true (given.mpr (int_shortcut isInt readable)) noMinus
      | none =>
          have same : Literal.decode (trim text) = .decoded value := by
            rw [Literal.decode, readable]
          rw [same]
          refine iff_of_true ?_ noMinus
          cases value <;> rfl

/-- For a text that is decoded, the reader of signature defaults gives the decoded value exactly if the text
speaks of no wrapped truth value and is no `float` call around a negative zero without a point, or if the value
is the list of the wrapped truth values in it. -/
theorem read_eq_decoded_iff {text : List Char} {value : Value}
    (decoded : Literal.decode text = .decoded value) :
    read text = given? value ↔
      if mentionsBool (trim text) = true then value = .list ((wrappedBools 0 (trim text)).map .bool)
      else ¬IsMinusZero (trim text) := by
  have readable := readable_of_decoded decoded
  by_cases mentions : mentionsBool (trim text) = true
  · rw [if_pos mentions]
    exact read_mentioned_iff mentions value
  · rw [if_neg mentions]
    exact read_unmentioned_iff readable (Bool.eq_false_iff.mpr mentions)

/-- A string that holds a wrapped truth value is not read as that string. -/
theorem read_ne_decoded_of_string :
    Literal.decode "'bool(True)'".toList = .decoded (.str "bool(True)") ∧
      read "'bool(True)'".toList ≠ given? (.str "bool(True)") := by
  have decoded : Literal.decode "'bool(True)'".toList = .decoded (.str "bool(True)") := by
    have written : literal (.str "bool(True)") = "'bool(True)'".toList := by decide
    have distinct : Distinct (.str "bool(True)") := trivial
    have isReadable : readable (.str "bool(True)") = true := rfl
    rw [← written, Literal.decode, read_literal distinct (by simp [texts]), isReadable]
    rfl
  refine ⟨decoded, fun same => ?_⟩
  have mentions : mentionsBool (trim "'bool(True)'".toList) = true := by decide
  rw [read_eq_decoded_iff decoded, if_pos mentions] at same
  simp at same

end SignatureDefault

end TaskCab
