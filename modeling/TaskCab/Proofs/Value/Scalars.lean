import TaskCab.Proofs.Number.Numeral
import TaskCab.Proofs.Text.Trim
import TaskCab.Proofs.Value.Content
import TaskCab.Source.Literal

/-!
# Reading numbers

The tokens that numbers are written with read as the numbers again. Negative numbers are a minus in front
of a token of their magnitude, so that the least word, whose magnitude is no word, cannot be read.
-/

namespace TaskCab

namespace Integer

theorem word_of_to_int {integer : Int} {word : Int64} (same : word.toInt = integer) :
    word? integer = some word := by
  subst same
  have lower := Int64.minValue_le_toInt word
  have upper := Int64.toInt_le word
  rw [word?, if_pos ⟨lower, upper⟩, Int64.ofInt_toInt]

theorem word_of_large {integer : Int} (large : Int64.maxValue.toInt < integer) :
    word? integer = none := by
  rw [word?, if_neg (by omega)]

end Integer

namespace Binary64

theorem magnitude_lt (number : Binary64) : number.magnitude < 2 ^ 63 :=
  Nat.mod_lt _ (by decide)

theorem to_nat_of_magnitude (negative : Bool) {magnitude : Nat} (bound : magnitude < 2 ^ 63) :
    (ofMagnitude negative magnitude).bits.toNat =
      (if negative then 2 ^ 63 else 0) + magnitude := by
  have below : (if negative then Nat.pow 2 63 + magnitude else magnitude) < 2 ^ 64 := by
    split
    · simp only [Nat.pow_eq]
      omega
    · omega
  rw [ofMagnitude, UInt64.toNat_ofNat_of_lt' below]
  split <;> simp

theorem magnitude_of_magnitude (negative : Bool) {magnitude : Nat} (bound : magnitude < 2 ^ 63) :
    (ofMagnitude negative magnitude).magnitude = magnitude := by
  rw [Binary64.magnitude, to_nat_of_magnitude negative bound]
  cases negative <;> simp only [Nat.pow_eq, if_true, Bool.false_eq_true, if_false] <;> omega

theorem is_negative_of_magnitude (negative : Bool) {magnitude : Nat} (bound : magnitude < 2 ^ 63) :
    (ofMagnitude negative magnitude).isNegative = negative := by
  rw [isNegative, to_nat_of_magnitude negative bound]
  cases negative with
  | false => simpa using bound
  | true => simp

theorem of_magnitude_magnitude (number : Binary64) :
    ofMagnitude number.isNegative number.magnitude = number := by
  have bound := number.bits.toNat_lt
  have same := to_nat_of_magnitude number.isNegative number.magnitude_lt
  have bits : (ofMagnitude number.isNegative number.magnitude).bits = number.bits := by
    refine UInt64.toNat.inj (same.trans ?_)
    simp only [isNegative, Binary64.magnitude, Nat.pow_eq, decide_eq_true_eq]
    split <;> omega
  cases number
  exact congrArg Binary64.mk bits

theorem neg_of_magnitude {magnitude : Nat} (bound : magnitude < 2 ^ 63) :
    (ofMagnitude false magnitude).neg = ofMagnitude true magnitude := by
  rw [neg, is_negative_of_magnitude false bound, magnitude_of_magnitude false bound, Bool.not_false]

end Binary64

namespace Source.Literal

theorem drop_underscores_digits {digits : List Char} (areDigits : Numeral.IsDigits digits) :
    dropUnderscores digits = digits := by
  refine List.filter_eq_self.mpr fun character member => ?_
  simp only [decide_eq_true_eq]
  rintro rfl
  simpa using areDigits _ member

theorem to_lower_digits {digits : List Char} (areDigits : Numeral.IsDigits digits) :
    digits.map Char.toLower = digits := by
  have each : ∀ character ∈ digits, character.toLower = id character :=
    fun character member => Text.to_lower_of_digit (areDigits character member)
  rw [List.map_congr_left each, List.map_id]

theorem integer_run {digits : List Char} (areDigits : Numeral.IsDigits digits) :
    integer? digits = (Integer.readNat? 10 digits).bind fun number => Integer.word? number := by
  have letters (mark : Char) (notDigit : mark.isDigit = false) (rest : List Char) :
      digits ≠ '0' :: mark :: rest := by
    intro same
    have isDigit := areDigits mark (by simp [same])
    simp [notDigit] at isDigit
  unfold integer?
  rw [drop_underscores_digits areDigits, to_lower_digits areDigits]
  dsimp only
  split
  next rest => exact absurd rfl (letters 'x' rfl rest)
  next rest => exact absurd rfl (letters 'o' rfl rest)
  next rest => exact absurd rfl (letters 'b' rfl rest)
  next => rfl

theorem integer_digits (number : Nat) :
    integer? (Integer.digits number) = Integer.word? number := by
  rw [integer_run (Numeral.is_digits_digits number), Integer.read_nat_digits, Option.bind_some]

end Source.Literal

namespace Value

open TaskCab.Source Literal

def isReadable : Value → Bool
  | int word => word != Int64.minValue
  | float number => number.isFinite
  | _ => true

theorem magnitude_word {word : Int64} (readable : word ≠ Int64.minValue) :
    ∃ magnitude : Int64, Integer.word? word.toInt.natAbs = some magnitude ∧
      magnitude.toInt = word.toInt.natAbs := by
  have lower : -2 ^ 63 < word.toInt := by
    rcases Int.lt_or_eq_of_le word.le_toInt with bound | same
    · exact bound
    · exact absurd (Int64.toInt.inj (same.symm.trans Int64.toInt_minValue.symm)) readable
  have upper := word.toInt_lt
  have same : (Int64.ofInt word.toInt.natAbs).toInt = word.toInt.natAbs :=
    Int64.toInt_ofInt_of_le (by omega) (by omega)
  exact ⟨_, Integer.word_of_to_int same, same⟩

theorem min_value_magnitude : Integer.word? (Int64.minValue.toInt.natAbs : Int) = none :=
  Integer.word_of_large (by decide)

end Value

end TaskCab
