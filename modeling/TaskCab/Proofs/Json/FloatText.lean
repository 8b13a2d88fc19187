import TaskCab.Proofs.Json.Printed
import TaskCab.Proofs.Number.Rounding
import TaskCab.Proofs.Value.Scalars

/-!
# Floats read back

The reader rounds twice, so that a float may come back as one of its neighbours. It is never refused, though:
what is below the largest number by its decimal digits stays below after both roundings, which grow with what
they are given, and the largest number itself is read as it is.
-/

namespace TaskCab.Json

open Binary64 (infinityMagnitude nearestMagnitude timesMagnitude divideMagnitude units power power_eq)

/-! ## Gathered digits -/

theorem digit_of_value {character : Char} {value : Nat}
    (read : Integer.digitValue? 10 character = some value) : digitOf character = value ∧ value < 10 := by
  have isDigit := Integer.is_digit_of_value read
  rw [Integer.digitValue?, isDigit, if_pos rfl] at read
  split at read
  next small =>
    obtain rfl := Option.some.inj read
    exact ⟨rfl, small⟩
  next => simp at read

theorem of_digit_chars_of_read {text : List Char} {start value : Nat}
    (read : Integer.readDigits? 10 start text = some value) : Nat.ofDigitChars 10 text start = value := by
  induction text generalizing start with
  | nil => exact Option.some.inj read
  | cons character rest ih =>
      obtain ⟨digit, readFirst, readRest⟩ := Option.bind_eq_some_iff.mp read
      obtain ⟨rfl, -⟩ := digit_of_value readFirst
      rw [Nat.ofDigitChars_cons, Nat.mul_comm]
      exact ih readRest

theorem le_of_read {text : List Char} {start value : Nat}
    (read : Integer.readDigits? 10 start text = some value) : start * 10 ^ text.length ≤ value := by
  induction text generalizing start with
  | nil => simpa using Nat.le_of_eq (Option.some.inj read)
  | cons character rest ih =>
      obtain ⟨digit, -, readRest⟩ := Option.bind_eq_some_iff.mp read
      calc start * 10 ^ (rest.length + 1) = start * 10 * 10 ^ rest.length := by rw [pow_succ]; ring
        _ ≤ (start * 10 + digit) * 10 ^ rest.length := Nat.mul_le_mul_right _ (Nat.le_add_right _ _)
        _ ≤ value := ih readRest

theorem lt_of_read {text : List Char} {start value : Nat}
    (read : Integer.readDigits? 10 start text = some value) : value < (start + 1) * 10 ^ text.length := by
  induction text generalizing start with
  | nil => simpa using Nat.lt_succ_of_le (Nat.le_of_eq (Option.some.inj read).symm)
  | cons character rest ih =>
      obtain ⟨digit, readFirst, readRest⟩ := Option.bind_eq_some_iff.mp read
      have small := (digit_of_value readFirst).2
      calc value < (start * 10 + digit + 1) * 10 ^ rest.length := ih readRest
        _ ≤ (start + 1) * 10 * 10 ^ rest.length := Nat.mul_le_mul_right _ (by omega)
        _ = (start + 1) * 10 ^ (rest.length + 1) := by rw [pow_succ]; ring

/-- Digits of a number that fits are gathered into it. -/
theorem gather_whole {text : List Char} {start value : Nat}
    (read : Integer.readDigits? 10 start text = some value) (fits : value < digitLimit) :
    gatherWhole start text = (value, 0) := by
  induction text generalizing start with
  | nil => rw [gatherWhole, Option.some.inj read]
  | cons character rest ih =>
      obtain ⟨digit, readFirst, readRest⟩ := Option.bind_eq_some_iff.mp read
      have next := le_of_read readRest
      have grows : start * 10 + digit ≤ value :=
        (Nat.le_mul_of_pos_right _ (Nat.pow_pos (by decide))).trans next
      rw [gatherWhole, (digit_of_value readFirst).1, if_pos (grows.trans_lt fits)]
      exact ih readRest

/-- Gathered digits fit, and fall short of all digits at their place. -/
theorem gather_fraction {text : List Char} {start value : Nat}
    (read : Integer.readDigits? 10 start text = some value) (fits : start < digitLimit) :
    ∃ significand dropped, gatherFraction start text = (significand, text.length - dropped) ∧
      dropped ≤ text.length ∧ significand < digitLimit ∧ significand * 10 ^ dropped ≤ value := by
  induction text generalizing start with
  | nil => exact ⟨start, 0, rfl, Nat.le_refl _, fits, by simpa using Nat.le_of_eq (Option.some.inj read)⟩
  | cons character rest ih =>
      obtain ⟨digit, readFirst, readRest⟩ := Option.bind_eq_some_iff.mp read
      rw [gatherFraction, (digit_of_value readFirst).1]
      dsimp only
      split
      next nextFits =>
        obtain ⟨significand, dropped, gathered, within, small, below⟩ := ih readRest nextFits
        refine ⟨significand, dropped, ?_, by simp; omega, small, below⟩
        rw [gathered]
        simp only [List.length_cons, Prod.mk.injEq, true_and]
        omega
      next =>
        refine ⟨start, rest.length + 1, by simp, by simp, fits, ?_⟩
        exact @le_of_read (character :: rest) _ _ read

/-! ## Scaling -/

/-- The largest integer that is nearest to a number below the largest one. -/
def roundedDown : Nat := power 2 1024 - 3 * power 2 970

def significandLimit : Nat := nearestMagnitude digitLimit 1

theorem rounded_down_bounds :
    infinityMagnitude - 1 ≤ nearestMagnitude (roundedDown + 1) 1 ∧ roundedDown < power 10 309 := by
  simp only [roundedDown, power_eq]
  decide +kernel

/-- Any significand is finite, and can be scaled up to this power of ten. -/
theorem significand_limit_bounds : significandLimit < infinityMagnitude ∧
    timesMagnitude significandLimit (powerOfTen 288) < infinityMagnitude := by
  decide +kernel

/-- From there on, the largest significand that stays below does so after both roundings. -/
theorem largest_scaled_finite : ∀ places < 20,
    timesMagnitude (nearestMagnitude (roundedDown / 10 ^ (289 + places)) 1) (powerOfTen (289 + places)) <
      infinityMagnitude := by
  simp only [roundedDown, power_eq]
  decide +kernel

theorem power_of_ten_mono {small large : Nat} (le : small ≤ large) : powerOfTen small ≤ powerOfTen large :=
  Binary64.nearest_magnitude_mono Nat.one_pos Nat.one_pos
    (Nat.mul_le_mul_right 1 (Nat.pow_le_pow_right (by decide) le))

theorem nearest_whole_mono {small large : Nat} (le : small ≤ large) :
    nearestMagnitude small 1 ≤ nearestMagnitude large 1 :=
  Binary64.nearest_magnitude_mono Nat.one_pos Nat.one_pos (Nat.mul_le_mul_right 1 le)

theorem scaled_up_finite {significand exponent : Nat} (fits : significand < digitLimit)
    (below : significand * 10 ^ exponent ≤ roundedDown) (short : exponent ≤ 308) :
    timesMagnitude (nearestMagnitude significand 1) (powerOfTen exponent) < infinityMagnitude := by
  by_cases small : exponent ≤ 288
  · exact (Binary64.times_magnitude_mono (nearest_whole_mono (Nat.le_of_lt fits))
      (power_of_ten_mono small)).trans_lt significand_limit_bounds.2
  · obtain ⟨places, rfl⟩ := Nat.exists_eq_add_of_le (by omega : 289 ≤ exponent)
    have largest := (Nat.le_div_iff_mul_le (Nat.pow_pos (by decide))).mpr below
    exact (Binary64.times_magnitude_mono (nearest_whole_mono largest) (Nat.le_refl _)).trans_lt
      (largest_scaled_finite places (by omega))

theorem scale_up {significand exponent : Nat} (fits : significand < digitLimit)
    (below : significand * 10 ^ exponent ≤ roundedDown) (steps : Nat) :
    ∃ scaled < infinityMagnitude,
      scale? (steps + 1) (nearestMagnitude significand 1) exponent = some scaled := by
  rw [scale?]
  by_cases short : exponent ≤ 308
  · have finite := scaled_up_finite fits below short
    refine ⟨_, finite, ?_⟩
    rw [Int.natAbs_natCast, if_pos short, if_pos (Int.natCast_nonneg exponent), if_pos finite]
  · have zero : significand = 0 := by
      by_contra positive
      have huge (places : Nat) (long : places ≤ exponent) : power 10 places ≤ significand * 10 ^ exponent := by
        rw [power_eq]
        exact (Nat.pow_le_pow_right (by decide) long).trans
          (Nat.le_mul_of_pos_left _ (Nat.pos_of_ne_zero positive))
      exact absurd ((huge 309 (by omega)).trans below) (Nat.not_le.mpr rounded_down_bounds.2)
    have none : nearestMagnitude significand 1 = 0 := by
      unfold nearestMagnitude
      generalize 1074 = places
      simp [zero]
    refine ⟨0, by decide, ?_⟩
    rw [Int.natAbs_natCast, if_neg short, if_pos none]

theorem units_one : units (nearestMagnitude 1 1) = power 2 1074 := by
  simp only [power_eq]
  decide +kernel

theorem units_one_le (exponent : Nat) : power 2 1074 ≤ units (powerOfTen exponent) := by
  rw [← units_one]
  exact Binary64.units_mono (nearest_whole_mono (Nat.pow_pos (by decide)))

/-- Dividing by a power of ten keeps below the bound. -/
theorem divide_magnitude_le {magnitude : Nat} (small : magnitude ≤ significandLimit) (exponent : Nat) :
    divideMagnitude magnitude (powerOfTen exponent) ≤ significandLimit := by
  have one := units_one_le exponent
  have positive := Binary64.power_two_pos 1074
  have itself := Binary64.nearest_magnitude_units significand_limit_bounds.1
  rw [divideMagnitude]
  calc nearestMagnitude (units magnitude) (units (powerOfTen exponent))
      ≤ nearestMagnitude (units significandLimit) (power 2 1074) :=
        Binary64.nearest_magnitude_mono (positive.trans_le one) positive
          (Nat.mul_le_mul (Binary64.units_mono small) one)
    _ = significandLimit := itself

theorem scale_down {exponent : Int} (negative : exponent < 0) (steps : Nat) {magnitude : Nat}
    (small : magnitude ≤ significandLimit) :
    ∃ scaled ≤ significandLimit, scale? steps magnitude exponent = some scaled := by
  induction steps generalizing magnitude exponent with
  | zero => exact ⟨magnitude, small, rfl⟩
  | succ steps ih =>
      have notUp : ¬0 ≤ exponent := by omega
      simp only [scale?, if_neg notUp]
      split
      next => exact ⟨_, divide_magnitude_le small _, rfl⟩
      next long =>
        split
        next => exact ⟨0, Nat.zero_le _, rfl⟩
        next => exact ih (by omega) (divide_magnitude_le small 308)

/-- A significand is scaled to a finite magnitude, if what it stands for stays below. -/
theorem scale_finite {significand : Nat} (fits : significand < digitLimit) {exponent : Int}
    (below : ∀ places : Nat, exponent = places → significand * 10 ^ places ≤ roundedDown) :
    ∃ scaled < infinityMagnitude, scale? 4 (nearestMagnitude significand 1) exponent = some scaled := by
  by_cases negative : exponent < 0
  · obtain ⟨scaled, bounded, found⟩ := scale_down negative 4 (nearest_whole_mono (Nat.le_of_lt fits))
    exact ⟨scaled, bounded.trans_lt significand_limit_bounds.1, found⟩
  · obtain ⟨places, rfl⟩ := Int.eq_ofNat_of_zero_le (Int.not_lt.mp negative)
    exact scale_up fits (below places rfl) 3

/-! ## Numerals below the largest number -/

/-- A numeral that denotes less than the largest number has its exact value below. -/
theorem ratio_lt_of_nearest {digits : Nat} {exponent : Int}
    (below : Decimal.nearestMagnitude digits exponent < infinityMagnitude - 1) :
    (Decimal.ratio digits exponent).1 < (roundedDown + 1) * (Decimal.ratio digits exponent).2 := by
  have positive : 0 < (Decimal.ratio digits exponent).2 := Nat.pow_pos (by decide)
  by_cases zero : digits = 0
  · have none : (Decimal.ratio digits exponent).1 = 0 := by simp [Decimal.ratio, zero]
    rw [none]
    exact Nat.mul_pos (Nat.succ_pos _) positive
  rw [Decimal.nearest_magnitude_eq zero] at below
  split at below
  next => omega
  next =>
    split at below
    next tiny =>
      have short : digits < 10 ^ (-exponent).toNat :=
        (Integer.digits_length_le_iff digits (-exponent).toNat (by omega)).mp (by omega)
      have whole : exponent.toNat = 0 := by omega
      simp only [Decimal.ratio, whole]
      calc digits * Nat.pow 10 0 = digits := Nat.mul_one _
        _ < 10 ^ (-exponent).toNat := short
        _ ≤ (roundedDown + 1) * 10 ^ (-exponent).toNat := Nat.le_mul_of_pos_left _ (Nat.succ_pos _)
    next =>
      refine Nat.lt_of_not_le fun above => ?_
      have grown := Binary64.nearest_magnitude_mono Nat.one_pos positive
        (above.trans (Nat.le_of_eq (Nat.mul_one _).symm))
      exact absurd (rounded_down_bounds.1.trans grown) (Nat.not_le.mpr below)

/-! ## Numerals of floats -/

theorem exponent_value_to_json {numeral : TaskCab.Numeral} (isNumber : numeral.IsNumber) {exponent : Int}
    (reads : Decimal.readExponent? numeral.exponentText = some exponent) (negative : Bool) :
    (numeral.toJson negative).exponentValue = exponent := by
  unfold TaskCab.Numeral.exponentText at reads
  rw [Numeral.exponentValue, TaskCab.Numeral.toJson]
  cases found : numeral.exponent with
  | none =>
      rw [found] at reads
      exact Option.some.inj reads
  | some parts =>
      obtain ⟨sign, digits⟩ := parts
      obtain ⟨isSign, nonempty, areDigits⟩ := isNumber.exponent sign digits found
      have filled : digits.isEmpty = false := by simpa using nonempty
      obtain ⟨value, read, -⟩ := Integer.read_digits_run areDigits 0
      have readNat : Integer.readNat? 10 digits = some value := by
        rw [Integer.readNat?, filled, if_neg Bool.false_ne_true, read]
      have total := of_digit_chars_of_read read
      rw [found] at reads
      rcases isSign with rfl | rfl
      · simp only [Decimal.readExponent?, true_or, if_true, Integer.read?, readNat] at reads
        obtain rfl : (value : Int) = exponent := Option.some.inj reads
        simp [total]
      · simp only [Decimal.readExponent?, true_or, if_true, Integer.read?, readNat] at reads
        obtain rfl : -(value : Int) = exponent := Option.some.inj reads
        simp [total]

theorem fraction_to_json (numeral : TaskCab.Numeral) (negative : Bool) :
    (numeral.toJson negative).fraction.getD [] = numeral.fraction := by
  cases found : numeral.fraction <;> simp [TaskCab.Numeral.toJson, found]

/-- A numeral that denotes less than the largest number is read as a finite float, unless digits in front of
its point do not fit. -/
theorem float_of_numeral {numeral : TaskCab.Numeral} (isNumber : numeral.IsNumber)
    (short : numeral.whole.length ≤ 16) {digits : Nat} {exponent : Int}
    (reads : numeral.Reads digits exponent)
    (below : Decimal.nearestMagnitude digits exponent < infinityMagnitude - 1) (negative : Bool) :
    ∃ scaled < infinityMagnitude,
      (numeral.toJson negative).float? = some (.ofMagnitude negative scaled) := by
  obtain ⟨readDigits, readExponent⟩ := reads
  rw [Integer.read_digits_append] at readDigits
  obtain ⟨whole, readWhole, readFraction⟩ := Option.bind_eq_some_iff.mp readDigits
  have fits : whole < digitLimit :=
    calc whole < (0 + 1) * 10 ^ numeral.whole.length := lt_of_read readWhole
      _ = 10 ^ numeral.whole.length := Nat.one_mul _
      _ ≤ 10 ^ 16 := Nat.pow_le_pow_right (by decide) short
      _ < digitLimit := by decide
  obtain ⟨significand, dropped, gathered, within, small, under⟩ := gather_fraction readFraction fits
  have bounded (places : Nat) (same : exponent + dropped = places) :
      significand * 10 ^ places ≤ roundedDown := by
    have total : places + (-exponent).toNat = dropped + exponent.toNat := by omega
    have positive : 0 < 10 ^ (-exponent).toNat := Nat.pow_pos (by decide)
    refine Nat.lt_succ_iff.mp (lt_of_mul_lt_mul_right ?_ (Nat.zero_le (10 ^ (-exponent).toNat)))
    calc significand * 10 ^ places * 10 ^ (-exponent).toNat
        = significand * 10 ^ dropped * 10 ^ exponent.toNat := by
          rw [Nat.mul_assoc, ← pow_add, total, pow_add, Nat.mul_assoc]
      _ ≤ digits * 10 ^ exponent.toNat := Nat.mul_le_mul_right _ under
      _ < (roundedDown + 1) * 10 ^ (-exponent).toNat := ratio_lt_of_nearest below
  obtain ⟨scaled, finite, found⟩ := scale_finite small bounded
  have value := exponent_value_to_json isNumber readExponent negative
  have places : ((0 : Nat) : Int) - ((numeral.fraction.length - dropped : Nat) : Int) +
      (exponent + numeral.fraction.length) = exponent + dropped := by omega
  refine ⟨scaled, finite, ?_⟩
  rw [Numeral.float?, show (numeral.toJson negative).whole = numeral.whole from rfl,
    gather_whole readWhole fits, fraction_to_json]
  dsimp only
  rw [gathered, value]
  dsimp only
  rw [places, found]
  rfl

/-! ## Floats -/

/-- Whether a float is read back from its own text. -/
def Rereads (number : Binary64) : Prop :=
  readValue? (String.ofList (floatText number)) = some (.float number)

def float? : Value → Option Binary64
  | .float number => some number
  | _ => none

theorem rereads_iff (number : Binary64) :
    Rereads number ↔ (readValue? (String.ofList (floatText number))).bind float? = some number := by
  rw [Rereads]
  cases readValue? (String.ofList (floatText number)) with
  | none => simp
  | some value => cases value <;> simp [float?]

instance (number : Binary64) : Decidable (Rereads number) :=
  decidable_of_iff _ (rereads_iff number).symm

theorem read_float_text (number : Binary64) :
    readValue? (String.ofList (floatText number)) = (tree (.float number)).toValue? 0 := by
  have read := @of_text_printed .compact (.float number) [] (by simp)
  rw [List.append_nil, render] at read
  rw [readValue?, String.toList_ofList, read]
  rfl

theorem largest_rereads (negative : Bool) :
    Rereads (Binary64.ofMagnitude negative (infinityMagnitude - 1)) := by
  revert negative
  decide +kernel

theorem value_of_float {numeral : TaskCab.Numeral} (isFloat : numeral.IsFloat) (negative : Bool) :
    (numeral.toJson negative).value? = (numeral.toJson negative).float?.map .float := by
  have noInteger : (numeral.toJson negative).integer? = none := by
    rw [Numeral.integer?, if_pos]
    rcases isFloat with fraction | exponent
    · simp [TaskCab.Numeral.toJson, fraction]
    · simp [TaskCab.Numeral.toJson, exponent]
  rw [Numeral.value?, noInteger]
  rfl

/-- The text of a finite float is read as a finite float. -/
theorem finite_of_float_text {number : Binary64} (finite : number.isFinite = true) :
    ∃ other : Binary64, other.isFinite = true ∧
      readValue? (String.ofList (floatText number)) = some (.float other) := by
  have bound : number.magnitude < infinityMagnitude := of_decide_eq_true finite
  by_cases largest : number.magnitude = infinityMagnitude - 1
  · have itself := largest_rereads number.isNegative
    rw [← largest, Binary64.of_magnitude_magnitude] at itself
    exact ⟨number, finite, itself⟩
  obtain ⟨numeral, isNumber, isFloat, text, ⟨digits, exponent, reads, denotes⟩, read⟩ := float_read finite
  have short : numeral.whole.length ≤ 16 := by
    have length := floatLayout.length_whole_unsigned rfl number.magnitude
    rwa [← text, TaskCab.Numeral.take_while_text isNumber] at length
  obtain ⟨scaled, below, found⟩ := float_of_numeral isNumber short reads (by omega) number.isNegative
  have limit : scaled < 2 ^ 63 := below.trans (by decide)
  refine ⟨.ofMagnitude number.isNegative scaled, ?_, ?_⟩
  · rw [Binary64.isFinite, Binary64.magnitude_of_magnitude _ limit]
    exact decide_eq_true below
  · have alone := read [] Text.stops_nil
    rw [List.append_nil] at alone
    rw [read_float_text, tree, alone]
    exact (value_of_float isFloat number.isNegative).trans (congrArg (Option.map Value.float) found)

end TaskCab.Json
