import TaskCab.Proofs.Number.Nearest
import TaskCab.Proofs.Text.Runs
import TaskCab.Source.Literal

/-!
# Numerals of floats

The literal of a finite float is a numeral: digits, a point with digits, an exponent with a sign and
digits, not all of them present. Reading the numeral gives the magnitude of the float back, since the
layout only moves the point and fills in zeros.
-/

namespace TaskCab

structure Numeral where
  whole : List Char
  fraction : List Char
  exponent : Option (Char × List Char)

namespace Numeral

open TaskCab.Text

def fractionText (numeral : Numeral) : List Char :=
  if numeral.fraction.isEmpty then [] else '.' :: numeral.fraction

def exponentText (numeral : Numeral) : List Char :=
  match numeral.exponent with
  | some (sign, digits) => 'e' :: sign :: digits
  | none => []

def text (numeral : Numeral) : List Char :=
  numeral.whole ++ numeral.fractionText ++ numeral.exponentText

def IsDigits (text : List Char) : Prop := ∀ character ∈ text, character.isDigit = true

/-- Digits in front, digits after the point, and a sign and digits in the exponent. -/
structure IsNumber (numeral : Numeral) : Prop where
  whole : numeral.whole ≠ [] ∧ IsDigits numeral.whole
  fraction : IsDigits numeral.fraction
  exponent : ∀ sign digits, numeral.exponent = some (sign, digits) →
    (sign = '+' ∨ sign = '-') ∧ digits ≠ [] ∧ IsDigits digits

def IsFloat (numeral : Numeral) : Prop := numeral.fraction ≠ [] ∨ numeral.exponent.isSome = true

/-- What the numeral denotes: the value of its digits and its power of ten. -/
def Reads (numeral : Numeral) (digits : Nat) (exponent : Int) : Prop :=
  Integer.readDigits? 10 0 (numeral.whole ++ numeral.fraction) = some digits ∧
    Decimal.readExponent? numeral.exponentText = some (exponent + numeral.fraction.length)

/-- A numeral is written with digits and with the marks of its point and of its exponent. -/
theorem digit_or_mark {numeral : Numeral} (isNumber : numeral.IsNumber) {character : Char}
    (member : character ∈ numeral.text) : character.isDigit = true ∨ character ∈ ".e+-".toList := by
  simp only [text, fractionText, exponentText, List.mem_append] at member
  rcases member with (inWhole | inFraction) | inExponent
  · exact .inl (isNumber.whole.2 character inWhole)
  · split at inFraction
    · simp at inFraction
    · rcases List.mem_cons.mp inFraction with rfl | inFraction
      · exact .inr (by decide)
      · exact .inl (isNumber.fraction character inFraction)
  · split at inExponent
    next sign digits same =>
      obtain ⟨isSign, -, areDigits⟩ := isNumber.exponent sign digits same
      rcases List.mem_cons.mp inExponent with rfl | inExponent
      · exact .inr (by decide)
      rcases List.mem_cons.mp inExponent with rfl | inExponent
      · rcases isSign with rfl | rfl <;> exact .inr (by decide)
      · exact .inl (areDigits character inExponent)
    · simp at inExponent

theorem exponent_text_stops (numeral : Numeral) : Stops Char.isDigit numeral.exponentText := by
  unfold exponentText
  split <;> simp

theorem fraction_text_stops (numeral : Numeral) :
    Stops Char.isDigit (numeral.fractionText ++ numeral.exponentText) := by
  unfold fractionText
  split
  · exact exponent_text_stops numeral
  · simp

/-- The digits in front are the digits that the text starts with. -/
theorem take_while_text {numeral : Numeral} (isNumber : numeral.IsNumber) :
    numeral.text.takeWhile Char.isDigit = numeral.whole := by
  rw [text, List.append_assoc]
  exact take_while_run isNumber.whole.2 (fraction_text_stops numeral)

def readFraction : List Char → List Char × List Char
  | '.' :: rest => rest.span Char.isDigit
  | rest => ([], rest)

theorem read_fraction_text {numeral : Numeral} (digits : IsDigits numeral.fraction) :
    readFraction (numeral.fractionText ++ numeral.exponentText) =
      (numeral.fraction, numeral.exponentText) := by
  unfold fractionText
  cases fraction : numeral.fraction with
  | nil =>
      simp only [List.isEmpty_nil, if_true, List.nil_append]
      unfold exponentText
      split <;> rfl
  | cons first rest =>
      rw [fraction] at digits
      exact span_run digits (exponent_text_stops numeral)

theorem read_unsigned_eq (negative : Bool) (text : List Char) :
    Decimal.readUnsigned? negative text = (do
      let parts := text.span Char.isDigit
      let fraction := readFraction parts.2
      if parts.1.isEmpty && fraction.1.isEmpty then none
      let exponent ← Decimal.readExponent? fraction.2
      let digits ← Integer.readDigits? 10 0 (parts.1 ++ fraction.1)
      some ⟨negative, digits, exponent - fraction.1.length⟩) := by
  unfold Decimal.readUnsigned? readFraction
  rfl

theorem read_text {numeral : Numeral} (isNumber : numeral.IsNumber) {digits : Nat} {exponent : Int}
    (reads : numeral.Reads digits exponent) (negative : Bool) :
    Decimal.readUnsigned? negative numeral.text = some ⟨negative, digits, exponent⟩ := by
  have wholeRead : numeral.text.span Char.isDigit =
      (numeral.whole, numeral.fractionText ++ numeral.exponentText) := by
    rw [text, List.append_assoc]
    exact span_run isNumber.whole.2 (fraction_text_stops numeral)
  have fractionRead := read_fraction_text isNumber.fraction
  have notEmpty : numeral.whole.isEmpty = false := by
    simpa [List.isEmpty_eq_false_iff] using isNumber.whole.1
  rw [read_unsigned_eq, wholeRead]
  dsimp only
  rw [fractionRead]
  simp [notEmpty, reads.1, reads.2]

/-- Whether a text is the numeral of a float and denotes a magnitude. -/
def Spells (text : List Char) (magnitude : Nat) : Prop :=
  ∃ numeral : Numeral, numeral.IsNumber ∧ numeral.IsFloat ∧ numeral.text = text ∧
    ∃ digits exponent, numeral.Reads digits exponent ∧
      Decimal.nearestMagnitude digits exponent = magnitude

theorem is_digits_append {left right : List Char} (first : IsDigits left) (second : IsDigits right) :
    IsDigits (left ++ right) := by
  intro character member
  rcases List.mem_append.mp member with member | member
  · exact first character member
  · exact second character member

theorem is_digits_zeros (count : Nat) : IsDigits (List.replicate count '0') := by
  intro character member
  rw [List.eq_of_mem_replicate member]
  rfl

theorem is_digits_digits (number : Nat) : IsDigits (Integer.digits number) :=
  fun _ member => Integer.is_digit_of_mem_digits member

theorem reads_plain {whole fraction : List Char} {digits : Nat}
    (read : Integer.readDigits? 10 0 (whole ++ fraction) = some digits) :
    Reads ⟨whole, fraction, none⟩ digits (-(fraction.length : Int)) := by
  refine ⟨read, ?_⟩
  simp [exponentText, Decimal.readExponent?]

theorem spells_positional {digits : List Char} {value : Nat} (areDigits : IsDigits digits)
    (nonempty : digits ≠ []) (read : Integer.readDigits? 10 0 digits = some value)
    (positive : value ≠ 0) (whole : Int) :
    Spells (NumberLayout.positional true digits whole)
      (Decimal.nearestMagnitude value (whole - digits.length)) := by
  by_cases small : whole ≤ 0
  · let zeros := List.replicate (-whole).toNat '0'
    have fraction : zeros ++ digits ≠ [] := by simp [nonempty]
    refine ⟨⟨['0'], zeros ++ digits, none⟩, ⟨⟨by simp, is_digits_zeros 1⟩,
      is_digits_append (is_digits_zeros _) areDigits, by simp⟩, .inl fraction, ?_, value, _,
      reads_plain ?_, ?_⟩
    · simp [NumberLayout.positional, small, text, fractionText, exponentText, zeros, nonempty]
    · exact (Integer.read_digits_zeros (_ + 1) digits).trans read
    · congr 1
      simp only [zeros, List.length_append, List.length_replicate]
      omega
  by_cases short : digits.length ≤ whole.toNat
  · let zeros := List.replicate (whole.toNat - digits.length) '0'
    have wholeRead := Integer.read_digits_trailing_zeros (whole.toNat - digits.length + 1) read
    refine ⟨⟨digits ++ zeros, ['0'], none⟩, ⟨⟨by simp [nonempty],
      is_digits_append areDigits (is_digits_zeros _)⟩, is_digits_zeros 1, by simp⟩,
      .inl (by simp), ?_, value * 10 ^ (whole.toNat - digits.length + 1), _, reads_plain ?_, ?_⟩
    · simp [NumberLayout.positional, small, short, text, fractionText, exponentText, zeros]
    · rw [← wholeRead, List.append_assoc, List.replicate_succ']
    · rw [Decimal.nearest_shift positive]
      congr 1
      simp only [List.length_cons, List.length_nil]
      omega
  · have front : digits.take whole.toNat ≠ [] := by
      rw [Ne, List.take_eq_nil_iff]
      rintro (zero | empty)
      · omega
      · exact nonempty empty
    have back : digits.drop whole.toNat ≠ [] := by
      rw [Ne, List.drop_eq_nil_iff]
      exact short
    refine ⟨⟨digits.take whole.toNat, digits.drop whole.toNat, none⟩,
      ⟨⟨front, fun c member => areDigits c (List.mem_of_mem_take member)⟩,
        fun c member => areDigits c (List.mem_of_mem_drop member), by simp⟩, .inl back,
      ?_, value, _, reads_plain ?_, ?_⟩
    · simp [NumberLayout.positional, small, short, text, fractionText, exponentText, back]
    · rw [List.take_append_drop, read]
    · congr 1
      simp only [List.length_drop]
      omega

theorem padded_digits (width number : Nat) :
    IsDigits (NumberLayout.padded width (Integer.digits number)) ∧
      NumberLayout.padded width (Integer.digits number) ≠ [] ∧
        Integer.readNat? 10 (NumberLayout.padded width (Integer.digits number)) = some number := by
  have nonempty : NumberLayout.padded width (Integer.digits number) ≠ [] := by
    simp [NumberLayout.padded, Integer.digits_ne_nil]
  refine ⟨is_digits_append (is_digits_zeros _) (is_digits_digits _), nonempty, ?_⟩
  have filled : (NumberLayout.padded width (Integer.digits number)).isEmpty = false := by
    simpa [List.isEmpty_eq_false_iff] using nonempty
  rw [Integer.readNat?, filled, if_neg (by simp)]
  exact (Integer.read_digits_zeros _ _).trans (Integer.read_digits_digits _)

theorem spells_scientific {digits : List Char} {value : Nat} (areDigits : IsDigits digits)
    (nonempty : digits ≠ []) (read : Integer.readDigits? 10 0 digits = some value)
    {layout : NumberLayout} (signed : layout.exponentSign = true) (exponent : Int) :
    Spells (layout.scientific digits exponent)
      (Decimal.nearestMagnitude value (exponent - (digits.length - 1 : Nat))) := by
  obtain ⟨first, rest, rfl⟩ := List.exists_cons_of_ne_nil nonempty
  have padded := padded_digits layout.exponentWidth exponent.natAbs
  let sign := if exponent < 0 then '-' else '+'
  refine ⟨⟨[first], rest, some (sign, NumberLayout.padded layout.exponentWidth
    (Integer.digits exponent.natAbs))⟩, ⟨⟨by simp, fun c member => ?_⟩, fun c member => ?_,
    fun other digits same => ?_⟩, .inr rfl, ?_, value, _, ⟨read, ?_⟩, rfl⟩
  · exact areDigits c (by simp_all)
  · exact areDigits c (by simp_all)
  · obtain ⟨rfl, rfl⟩ := Prod.mk.inj (Option.some.inj same)
    refine ⟨?_, padded.2.1, padded.1⟩
    simp only [sign]
    split <;> simp
  · have signText : (if exponent < 0 then ['-'] else ['+']) = [sign] := by
      simp only [sign]
      split <;> rfl
    cases rest <;>
      simp [text, fractionText, exponentText, NumberLayout.scientific, NumberLayout.exponentText,
        signed, signText]
  · have total : exponent - (((first :: rest).length - 1 : Nat) : Int) + (rest.length : Int) =
        exponent := by
      simp
    simp only [total, exponentText, Decimal.readExponent?, true_or, if_true, sign]
    by_cases negative : exponent < 0
    · have value : -(exponent.natAbs : Int) = exponent := by omega
      rw [if_pos negative]
      simp only [Integer.read?, padded.2.2]
      exact congrArg some value
    · have value : (exponent.natAbs : Int) = exponent := by omega
      rw [if_neg negative]
      simp only [Integer.read?, padded.2.2]
      exact congrArg some value

end Numeral

namespace NumberLayout

open Numeral TaskCab.Text

def unsigned (layout : NumberLayout) (magnitude : Nat) : List Char :=
  if magnitude = 0 then positional layout.keepPoint ['0'] 1
  else
    let numeral := Binary64.shortest layout.tie magnitude
    let text := Integer.digits numeral.1
    let first := numeral.2 + text.length - 1
    if layout.smallest ≤ first ∧ first ≤ layout.largest then
      positional layout.keepPoint text (first + 1)
    else scientific layout text first

theorem render_eq (layout : NumberLayout) (number : Binary64) :
    layout.render number =
      (if number.isNegative then ['-'] else []) ++ layout.unsigned number.magnitude := by
  unfold render unsigned Binary64.isZero
  by_cases zero : number.magnitude = 0
  · simp [zero]
  · simp only [beq_eq_false_iff_ne.mpr zero, if_neg zero, Bool.false_eq_true, if_false]
    split <;> rfl

theorem spells_unsigned (layout : NumberLayout) (pointed : layout.keepPoint = true)
    (signed : layout.exponentSign = true) {magnitude : Nat}
    (finite : magnitude < Binary64.infinityMagnitude) :
    Spells (layout.unsigned magnitude) magnitude := by
  by_cases zero : magnitude = 0
  · refine ⟨⟨['0'], ['0'], none⟩, ⟨⟨by simp, is_digits_zeros 1⟩, is_digits_zeros 1, by simp⟩,
      .inl (by simp), ?_, 0, _, reads_plain rfl, ?_⟩
    · simp [unsigned, zero, pointed, positional, text, fractionText, Numeral.exponentText]
    · rw [zero]
      rfl
  · have denotes := Binary64.shortest_denotes layout.tie zero finite
    rw [unsigned, if_neg zero]
    generalize Binary64.shortest layout.tie magnitude = numeral at denotes ⊢
    have areDigits := is_digits_digits numeral.1
    have nonempty := Integer.digits_ne_nil numeral.1
    have read := Integer.read_digits_digits numeral.1
    have count := List.length_pos_iff.mpr nonempty
    dsimp only
    split
    · have spells := spells_positional areDigits nonempty read denotes.1
        (numeral.2 + (Integer.digits numeral.1).length - 1 + 1)
      rw [pointed]
      convert spells
      rw [← denotes.2]
      congr 1
      omega
    · have spells := spells_scientific areDigits nonempty read signed
        (numeral.2 + (Integer.digits numeral.1).length - 1)
      convert spells
      rw [← denotes.2]
      congr 1
      omega

theorem length_whole_positional (digits : List Char) (whole : Int) :
    ((positional true digits whole).takeWhile Char.isDigit).length ≤ max 1 whole.toNat := by
  have point : Char.isDigit '.' = false := rfl
  by_cases small : whole ≤ 0
  · have front := length_take_while_le point ['0'] (List.replicate (-whole).toNat '0' ++ digits)
    rw [positional, if_pos small]
    exact front.trans (Nat.le_max_left _ _)
  rw [positional, if_neg small]
  dsimp only
  split
  next short =>
    have front := length_take_while_le point
      (digits ++ List.replicate (whole.toNat - digits.length) '0') ['0']
    rw [List.length_append, List.length_replicate] at front
    exact front.trans (by omega)
  next =>
    have front := length_take_while_le point (digits.take whole.toNat) (digits.drop whole.toNat)
    rw [List.length_take] at front
    exact front.trans (by omega)

theorem length_whole_scientific (layout : NumberLayout) {digits : List Char} (nonempty : digits ≠ [])
    (exponent : Int) : ((layout.scientific digits exponent).takeWhile Char.isDigit).length ≤ 1 := by
  obtain ⟨first, rest, rfl⟩ := List.exists_cons_of_ne_nil nonempty
  cases rest with
  | nil => exact length_take_while_le (rfl : Char.isDigit 'e' = false) [first] _
  | cons second rest => exact length_take_while_le (rfl : Char.isDigit '.' = false) [first] _

/-- In front of a point there are at most as many digits as the largest plain exponent asks for. -/
theorem length_whole_unsigned (layout : NumberLayout) (pointed : layout.keepPoint = true)
    (magnitude : Nat) :
    ((layout.unsigned magnitude).takeWhile Char.isDigit).length ≤ max 1 (layout.largest + 1).toNat := by
  rw [unsigned, pointed]
  split
  next => exact (length_whole_positional ['0'] 1).trans (by omega)
  next =>
    dsimp only
    split
    next inRange => exact (length_whole_positional _ _).trans (by omega)
    next => exact (length_whole_scientific layout (Integer.digits_ne_nil _) _).trans (by omega)

end NumberLayout

theorem Decimal.read_digit {first : Char} (isDigit : first.isDigit = true) (rest : List Char) :
    Decimal.read? (first :: rest) = Decimal.readUnsigned? false (first :: rest) := by
  unfold Decimal.read?
  split
  next same => simp [(List.cons.inj same).1] at isDigit
  next same => simp [(List.cons.inj same).1] at isDigit
  next => rfl

namespace Source.Literal

open Numeral

theorem drop_underscores_text {numeral : Numeral} (isNumber : numeral.IsNumber) :
    dropUnderscores numeral.text = numeral.text := by
  refine List.filter_eq_self.mpr fun character member => decide_eq_true ?_
  rintro rfl
  rcases digit_or_mark isNumber member with isDigit | mark
  · simp at isDigit
  · exact absurd mark (by decide)

theorem float_of_spells {text : List Char} {magnitude : Nat} (spells : Spells text magnitude) :
    float? text = some (.ofMagnitude false magnitude) := by
  obtain ⟨numeral, isNumber, -, rfl, digits, exponent, reads, denotes⟩ := spells
  obtain ⟨first, rest, whole⟩ := List.exists_cons_of_ne_nil isNumber.whole.1
  have isDigit : first.isDigit = true := isNumber.whole.2 first (by simp [whole])
  have front : numeral.text = first :: (rest ++ numeral.fractionText ++ numeral.exponentText) := by
    simp [Numeral.text, whole]
  have unsigned : Decimal.read? numeral.text = Decimal.readUnsigned? false numeral.text := by
    rw [front]
    exact Decimal.read_digit isDigit _
  rw [float?, drop_underscores_text isNumber, unsigned, read_text isNumber reads]
  simp [Decimal.toBinary64, denotes]

end Source.Literal
end TaskCab
