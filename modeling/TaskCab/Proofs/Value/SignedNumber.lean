import TaskCab.Proofs.Value.Scalars

/-!
# Numbers behind a sign

Digits behind an optional sign are an integer, and a numeral with a sign is rounded apart from it.
-/

namespace TaskCab

namespace Integer

theorem to_int_of_word {integer : Int} {word : Int64} (found : word? integer = some word) :
    word.toInt = integer := by
  unfold word? at found
  split at found
  next bounds =>
    obtain rfl := Option.some.inj found
    exact Int64.toInt_ofInt_of_le bounds.1 (Int.lt_of_le_of_lt bounds.2 (by decide))
  next => simp at found

/-- The value of digits behind an optional sign. -/
theorem read_signed {digits : List Char} (nonempty : digits ≠ []) (areDigits : Numeral.IsDigits digits)
    {magnitude : Nat} (reads : readDigits? 10 0 digits = some magnitude) (negative : Bool) :
    read? ((if negative then ['-'] else []) ++ digits) =
      some (if negative then -(magnitude : Int) else magnitude) := by
  have number : readNat? 10 digits = some magnitude := by
    rw [readNat?, List.isEmpty_eq_false_iff.mpr nonempty, if_neg (by decide), reads]
  cases negative with
  | false =>
      obtain ⟨first, rest, rfl⟩ := List.exists_cons_of_ne_nil nonempty
      have isDigit := areDigits first (.head _)
      rw [if_neg (by decide), if_neg (by decide), List.nil_append]
      unfold read?
      split
      next same => simp [(List.cons.inj same).1] at isDigit
      next same => simp [(List.cons.inj same).1] at isDigit
      next =>
        rw [number]
        rfl
  | true =>
      rw [if_pos rfl, if_pos rfl, List.singleton_append, read?, number]
      rfl

/-- A word is read back from its digits. -/
theorem read_word_render (word : Int64) : readWord? (render word.toInt) = some word := by
  have digits := read_signed (digits_ne_nil word.toInt.natAbs) (Numeral.is_digits_digits word.toInt.natAbs)
    (read_digits_digits word.toInt.natAbs) (decide (word.toInt < 0))
  have value : (if decide (word.toInt < 0) then -(word.toInt.natAbs : Int) else word.toInt.natAbs) =
      word.toInt := by
    by_cases negative : word.toInt < 0 <;> simp only [negative, decide_true, decide_false, if_true,
      Bool.false_eq_true, if_false] <;> omega
  rw [readWord?, render_parts, digits, value, Option.bind_some, word_of_to_int rfl]

/-- A sign that may be written in front of a number; `some true` is a minus. -/
def signText : Option Bool → List Char
  | none => []
  | some false => ['+']
  | some true => ['-']

def signed (sign : Option Bool) (magnitude : Nat) : Int :=
  if sign = some true then -(magnitude : Int) else magnitude

theorem read_behind_sign {digits : List Char} (nonempty : digits ≠ []) (areDigits : Numeral.IsDigits digits)
    {magnitude : Nat} (reads : readDigits? 10 0 digits = some magnitude) (sign : Option Bool) :
    read? (signText sign ++ digits) = some (signed sign magnitude) := by
  match sign with
  | none => exact read_signed nonempty areDigits reads false
  | some true => exact read_signed nonempty areDigits reads true
  | some false =>
      have number : readNat? 10 digits = some magnitude := by
        rw [readNat?, List.isEmpty_eq_false_iff.mpr nonempty, if_neg (by decide), reads]
      rw [signText, List.singleton_append, read?, number]
      rfl

end Integer

namespace Decimal

theorem read_unsigned_digits {digits : List Char} (nonempty : digits ≠ [])
    (areDigits : Numeral.IsDigits digits) {magnitude : Nat}
    (reads : Integer.readDigits? 10 0 digits = some magnitude) (negative : Bool) :
    readUnsigned? negative digits = some ⟨negative, magnitude, 0⟩ := by
  have isNumber : Numeral.IsNumber ⟨digits, [], none⟩ :=
    ⟨⟨nonempty, areDigits⟩, by simp [Numeral.IsDigits], by simp⟩
  have read := Numeral.read_text isNumber (Numeral.reads_plain (by simpa using reads)) negative
  simpa [Numeral.text, Numeral.fractionText, Numeral.exponentText] using read

theorem read_unsigned_parts (text : List Char) :
    ∃ parts : Option (Nat × Int), ∀ negative, readUnsigned? negative text =
      parts.map fun (digits, exponent) => ⟨negative, digits, exponent⟩ := by
  refine ⟨(readUnsigned? false text).map fun numeral => (numeral.digits, numeral.exponent),
    fun negative => ?_⟩
  rw [Numeral.read_unsigned_eq, Numeral.read_unsigned_eq]
  dsimp only
  split
  · rfl
  · cases readExponent? (Numeral.readFraction (text.span Char.isDigit).2).2 with
    | none => rfl
    | some exponent =>
        cases Integer.readDigits? 10 0
            ((text.span Char.isDigit).1 ++ (Numeral.readFraction (text.span Char.isDigit).2).1) with
        | none => rfl
        | some digits => rfl

theorem nearest_magnitude_lt (digits : Nat) (exponent : Int) : nearestMagnitude digits exponent < 2 ^ 63 := by
  have infinite : Binary64.infinityMagnitude < 2 ^ 63 := by decide
  unfold nearestMagnitude
  split
  · decide
  dsimp only
  split
  · exact infinite
  split
  · decide
  · exact Nat.lt_of_le_of_lt (Binary64.nearest_magnitude_le _ _) infinite

theorem to_binary64_negative (digits : Nat) (exponent : Int) :
    toBinary64 ⟨true, digits, exponent⟩ = (toBinary64 ⟨false, digits, exponent⟩).neg :=
  (Binary64.neg_of_magnitude (nearest_magnitude_lt digits exponent)).symm

/-- A word is rounded like the numeral of its digits. -/
theorem nearest_magnitude_word {number : Nat} (isWord : number < 2 ^ 64) :
    nearestMagnitude number 0 = Binary64.nearestMagnitude number 1 := by
  by_cases zero : number = 0
  · rw [zero]
    decide +kernel
  · have short : (Integer.digits number).length ≤ 20 := by
      rw [Integer.digits_length_le_iff _ _ (by decide)]
      exact isWord.trans (by decide)
    rw [nearest_magnitude_eq zero, if_neg (by omega), if_neg (by omega)]
    simp [ratio]

/-- An integer is rounded like its numeral, except that it has no negative zero. -/
theorem to_binary64_integer {number : Nat} (isWord : number < 2 ^ 64) (negative : Bool) :
    toBinary64 ⟨negative, number, 0⟩ = .ofInt (if negative then -(number : Int) else number) ↔
      ¬(negative = true ∧ number = 0) := by
  have rounded := nearest_magnitude_word isWord
  cases negative with
  | false =>
      have positive : decide ((number : Int) < 0) = false := by simp
      simp [toBinary64, Binary64.ofInt, rounded, positive]
  | true =>
      by_cases zero : number = 0
      · rw [zero]
        decide +kernel
      · have below : decide (-(number : Int) < 0) = true := by
          rw [decide_eq_true_eq]
          omega
        rw [toBinary64, Binary64.ofInt, rounded, if_pos rfl, below, Int.natAbs_neg, Int.natAbs_natCast]
        simp [zero]

/-- A word has no sign on a zero, so that its numeral is rounded like the word. -/
theorem to_binary64_word (word : Int64) :
    toBinary64 ⟨decide (word.toInt < 0), word.toInt.natAbs, 0⟩ = .ofInt word.toInt := by
  have bound : word.toInt.natAbs < 2 ^ 64 := by
    have lower := word.le_toInt
    have upper := word.toInt_lt
    omega
  have noSignedZero : ¬(decide (word.toInt < 0) = true ∧ word.toInt.natAbs = 0) := by
    rw [decide_eq_true_eq]
    omega
  have signed : (if decide (word.toInt < 0) = true then -(word.toInt.natAbs : Int)
      else word.toInt.natAbs) = word.toInt := by
    simp only [decide_eq_true_eq]
    split <;> omega
  have nearest := (to_binary64_integer bound (decide (word.toInt < 0))).mpr noSignedZero
  rwa [signed] at nearest

theorem to_binary64_tenths (negative : Bool) (number : Nat) :
    toBinary64 ⟨negative, number * 10 ^ 1, -1⟩ = toBinary64 ⟨negative, number, 0⟩ := by
  have shifted : nearestMagnitude (number * 10 ^ 1) (-1) = nearestMagnitude number 0 := by
    by_cases zero : number = 0
    · simp [zero, nearestMagnitude]
    · exact nearest_shift_one zero (-1)
  exact congrArg (Binary64.ofMagnitude negative) shifted

end Decimal

namespace Binary64

theorem read_digit {first : Char} (isDigit : first.isDigit = true) (rest : List Char) (negative : Bool) :
    read? ((if negative then ['-'] else []) ++ first :: rest) =
      (Decimal.readUnsigned? negative (first :: rest)).map Decimal.toBinary64 := by
  have lower := Text.to_lower_of_digit isDigit
  have differs {letter : Char} (notDigit : letter.isDigit = false) : first ≠ letter := by
    rintro rfl
    simp [notDigit] at isDigit
  have noWord (sign : Bool) : readWord? sign (first :: rest) = none := by
    simp [readWord?, lower, @differs 'i' rfl, @differs 'n' rfl]
  cases negative with
  | false =>
      rw [if_neg (by decide), List.nil_append]
      unfold read?
      dsimp only
      rw [Decimal.read_digit isDigit]
      split
      next same => simp [(List.cons.inj same).1] at isDigit
      next same => simp [(List.cons.inj same).1] at isDigit
      next =>
        rw [noWord]
        rfl
  | true =>
      rw [if_pos rfl, List.singleton_append, read?]
      simp only [noWord]
      rfl

end Binary64

end TaskCab
