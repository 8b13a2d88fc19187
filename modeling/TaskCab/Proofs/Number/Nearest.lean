import Mathlib.Data.Nat.Log
import TaskCab.Number.Shortest
import TaskCab.Proofs.Number.Digits

/-!
# The number nearest to a numeral

The number that a numeral denotes depends on the value of the numeral alone, so a zero may move between
the digits and the power of ten. Every finite number is nearest to its own exact digits; hence its
shortest digits, which are tried by reading them back, denote it again.
-/

namespace TaskCab

namespace Binary64

/-- A power kept closed, since the ones at hand are too large to be written out. -/
@[irreducible] def power (base exponent : Nat) : Nat := Nat.pow base exponent

theorem power_eq (base exponent : Nat) : power base exponent = Nat.pow base exponent := by
  rw [power]

theorem pow_two_pos (exponent : Nat) : 0 < Nat.pow 2 exponent := Nat.two_pow_pos exponent

theorem power_two_pos (exponent : Nat) : 0 < power 2 exponent := by
  rw [power_eq]
  exact pow_two_pos exponent

theorem pow_two_add (left right : Nat) :
    Nat.pow 2 (left + right) = Nat.pow 2 left * Nat.pow 2 right := Nat.pow_add 2 left right

theorem pow_two_le (small large : Nat) (le : small ≤ large) : Nat.pow 2 small ≤ Nat.pow 2 large :=
  Nat.pow_le_pow_right (by decide) le

theorem nearest_magnitude_scale (factor numerator denominator : Nat) (positive : 0 < factor) :
    nearestMagnitude (numerator * factor) (denominator * factor) =
      nearestMagnitude numerator denominator := by
  have scaled : numerator * factor * Nat.pow 2 1074 / (denominator * factor) =
      numerator * Nat.pow 2 1074 / denominator := by
    rw [Nat.mul_right_comm, Nat.mul_div_mul_right _ _ positive]
  have place (scale : Nat) : denominator * factor * Nat.pow 2 scale =
      denominator * Nat.pow 2 scale * factor := Nat.mul_right_comm ..
  have numerators : numerator * factor * Nat.pow 2 1074 = numerator * Nat.pow 2 1074 * factor :=
    Nat.mul_right_comm ..
  unfold nearestMagnitude
  simp only [scaled, place]
  rw [numerators]
  simp only [Nat.mul_div_mul_right _ _ positive, Nat.mul_mod_mul_right]
  generalize numerator * Nat.pow 2 1074 = top
  generalize denominator * Nat.pow 2 ((top / denominator).log2 - 52) = bottom
  have below : 2 * (top % bottom * factor) < bottom * factor ↔ 2 * (top % bottom) < bottom := by
    rw [← Nat.mul_assoc, Nat.mul_lt_mul_right positive]
  have halfway : 2 * (top % bottom * factor) = bottom * factor ↔ 2 * (top % bottom) = bottom := by
    rw [← Nat.mul_assoc, Nat.mul_left_inj (Nat.pos_iff_ne_zero.mp positive)]
  simp only [below, halfway]

theorem nearest_magnitude_le (numerator denominator : Nat) :
    nearestMagnitude numerator denominator ≤ infinityMagnitude := by
  unfold nearestMagnitude
  exact Nat.min_le_right _ _

theorem significand_scale (magnitude : Nat) :
    scale magnitude * Nat.pow 2 52 + significand magnitude = magnitude := by
  have quotient := Nat.div_add_mod magnitude (Nat.pow 2 52)
  have smaller : scale magnitude * Nat.pow 2 52 ≤ magnitude := by
    refine (Nat.mul_le_mul_right _ (Nat.sub_le _ 1)).trans ?_
    rw [Nat.mul_comm]
    omega
  unfold significand
  omega

theorem log2_units (magnitude : Nat) : (units magnitude).log2 - 52 = scale magnitude := by
  have whole := significand_scale magnitude
  have size : Nat.pow 2 52 = 2 ^ 52 := rfl
  rw [size] at whole
  have quotient := Nat.div_add_mod magnitude (2 ^ 52)
  have remainder := Nat.mod_lt magnitude (by decide : 2 ^ 52 > 0)
  have scaleEq : scale magnitude = magnitude / 2 ^ 52 - 1 := rfl
  by_cases small : magnitude / 2 ^ 52 ≤ 1
  · have noScale : scale magnitude = 0 := by omega
    have unitsEq : units magnitude = magnitude := by
      rw [noScale] at whole
      simpa [units, noScale, Nat.pow] using whole
    have bound : magnitude < 2 ^ 53 := by omega
    rw [noScale, unitsEq]
    by_cases zero : magnitude = 0
    · simp [zero]
    · have := (Nat.log2_lt zero).mpr bound
      omega
  · have lower : 2 ^ 52 ≤ significand magnitude := by omega
    have upper : significand magnitude < 2 ^ 53 := by omega
    have unitsEq : units magnitude = significand magnitude * 2 ^ scale magnitude := rfl
    have log : (units magnitude).log2 = 52 + scale magnitude := by
      have power : 0 < 2 ^ scale magnitude := Nat.two_pow_pos _
      rw [Nat.log2_eq_iff (by rw [unitsEq]; exact Nat.pos_iff_ne_zero.mp (Nat.mul_pos (by omega) power))]
      rw [unitsEq]
      constructor
      · rw [pow_add]
        exact Nat.mul_le_mul_right _ lower
      · rw [show 52 + scale magnitude + 1 = 53 + scale magnitude by omega, pow_add]
        exact Nat.mul_lt_mul_of_pos_right upper power
    omega

/-- A magnitude below the infinite one is nearest to itself. -/
theorem nearest_magnitude_units {magnitude : Nat} (finite : magnitude < infinityMagnitude) :
    nearestMagnitude (units magnitude) (power 2 1074) = magnitude := by
  rw [power_eq]
  unfold nearestMagnitude
  generalize 1074 = places
  have positive := pow_two_pos places
  generalize Nat.pow 2 places = unit at positive
  have quotient : units magnitude * unit / unit = units magnitude :=
    Nat.mul_div_cancel _ positive
  have scalePower := pow_two_pos (scale magnitude)
  have split : units magnitude * unit =
      significand magnitude * (unit * Nat.pow 2 (scale magnitude)) := by
    rw [units, Nat.mul_assoc, Nat.mul_comm (Nat.pow 2 _) unit]
  have placePositive : 0 < unit * Nat.pow 2 (scale magnitude) := Nat.mul_pos positive scalePower
  simp only [quotient, log2_units]
  rw [split, Nat.mul_div_cancel _ placePositive, Nat.mul_mod_left]
  rw [if_pos (Or.inl (by omega)), significand_scale]
  exact Nat.min_eq_left (Nat.le_of_lt finite)

end Binary64

namespace Decimal

theorem nearest_ratio_shift (digits : Nat) (exponent : Int) :
    Binary64.nearestMagnitude (ratio (digits * 10) exponent).1 (ratio (digits * 10) exponent).2 =
      Binary64.nearestMagnitude (ratio digits (exponent + 1)).1 (ratio digits (exponent + 1)).2 := by
  by_cases whole : 0 ≤ exponent
  · obtain ⟨power, rfl⟩ := Int.eq_ofNat_of_zero_le whole
    have next : ((power : Int) + 1).toNat = power + 1 := by omega
    have below : (-(power : Int)).toNat = 0 ∧ (-((power : Int) + 1)).toNat = 0 := by omega
    have same : digits * 10 * Nat.pow 10 power = digits * Nat.pow 10 (power + 1) := by
      change _ = digits * (Nat.pow 10 power * 10)
      rw [Nat.mul_assoc, Nat.mul_comm 10]
    simp only [ratio, Int.toNat_natCast, next, below.1, below.2, same]
  · obtain ⟨power, same⟩ : ∃ power : Nat, -exponent = power + 1 := ⟨(-exponent - 1).toNat, by omega⟩
    have above : exponent.toNat = 0 ∧ (exponent + 1).toNat = 0 := by omega
    have below : (-exponent).toNat = power + 1 ∧ (-(exponent + 1)).toNat = power := by omega
    have scaled := Binary64.nearest_magnitude_scale 10 (digits * Nat.pow 10 0) (Nat.pow 10 power)
      (by decide)
    have top : digits * 10 * Nat.pow 10 0 = digits * Nat.pow 10 0 * 10 := Nat.mul_right_comm ..
    simp only [ratio, above.1, above.2, below.1, below.2, top]
    exact scaled

theorem nearest_magnitude_eq {digits : Nat} (positive : digits ≠ 0) (exponent : Int) :
    nearestMagnitude digits exponent =
      if 310 < (Integer.digits digits).length + exponent then Binary64.infinityMagnitude
      else if (Integer.digits digits).length + exponent < -330 then 0
      else Binary64.nearestMagnitude (ratio digits exponent).1 (ratio digits exponent).2 := by
  rw [nearestMagnitude, if_neg positive]

theorem nearest_shift_one {digits : Nat} (positive : digits ≠ 0) (exponent : Int) :
    nearestMagnitude (digits * 10) exponent = nearestMagnitude digits (exponent + 1) := by
  have size : (((Integer.digits (digits * 10)).length : Nat) : Int) + exponent =
      ((Integer.digits digits).length : Int) + (exponent + 1) := by
    rw [Integer.digits_length_mul_ten positive]
    omega
  rw [nearest_magnitude_eq (by omega), nearest_magnitude_eq positive, size, nearest_ratio_shift]

/-- Zeros at the end of the digits count like a higher power of ten. -/
theorem nearest_shift {digits : Nat} (positive : digits ≠ 0) (exponent : Int) (count : Nat) :
    nearestMagnitude (digits * 10 ^ count) exponent =
      nearestMagnitude digits (exponent + count) := by
  induction count generalizing exponent with
  | zero => simp
  | succ count ih =>
      have nonzero : digits * 10 ^ count ≠ 0 :=
        Nat.mul_ne_zero positive (Nat.pos_iff_ne_zero.mp (Nat.pow_pos (by decide)))
      rw [pow_succ, ← Nat.mul_assoc, nearest_shift_one nonzero, ih]
      congr 1
      omega

/-- As many fives as places turn a binary fraction into a decimal one. -/
theorem nearest_ratio_exact (top places : Nat) :
    Binary64.nearestMagnitude (ratio (top * Binary64.power 5 places) (-(places : Int))).1
        (ratio (top * Binary64.power 5 places) (-(places : Int))).2 =
      Binary64.nearestMagnitude top (Binary64.power 2 places) := by
  have noTens : (-(places : Int)).toNat = 0 := by omega
  have tens : (-(-(places : Int))).toNat = places := by omega
  have factors : Nat.pow 10 places = Nat.pow 2 places * Nat.pow 5 places := Nat.mul_pow 2 5 places
  simp only [ratio, noTens, tens, factors, Binary64.power_eq]
  have one : top * Nat.pow 5 places * Nat.pow 10 0 = top * Nat.pow 5 places := Nat.mul_one _
  rw [one]
  exact Binary64.nearest_magnitude_scale _ _ _ (Nat.pow_pos (by decide))

end Decimal

namespace Binary64

theorem scale_le {magnitude : Nat} (finite : magnitude < infinityMagnitude) :
    significand magnitude < Nat.pow 2 53 ∧ scale magnitude ≤ 2045 := by
  have whole := significand_scale magnitude
  have quotient := Nat.div_add_mod magnitude (Nat.pow 2 52)
  have remainder := Nat.mod_lt magnitude (by decide : Nat.pow 2 52 > 0)
  have scaleEq : scale magnitude = magnitude / Nat.pow 2 52 - 1 := rfl
  have size : Nat.pow 2 52 = 4503599627370496 := rfl
  have next : Nat.pow 2 53 = 9007199254740992 := rfl
  have limit : infinityMagnitude = 2047 * 4503599627370496 := rfl
  rw [size] at whole quotient remainder scaleEq
  omega

theorem units_lt {magnitude : Nat} (finite : magnitude < infinityMagnitude) :
    units magnitude < power 2 2098 := by
  have bounds := scale_le finite
  have below : units magnitude < Nat.pow 2 53 * Nat.pow 2 (scale magnitude) :=
    Nat.mul_lt_mul_of_pos_right bounds.1 (pow_two_pos _)
  rw [← pow_two_add] at below
  rw [power_eq]
  generalize limit : 2098 = exponent
  exact below.trans_le (pow_two_le _ _ (by omega))

theorem units_pos {magnitude : Nat} (positive : magnitude ≠ 0) : 0 < units magnitude := by
  have whole := significand_scale magnitude
  have scaleEq : scale magnitude = magnitude / Nat.pow 2 52 - 1 := rfl
  have quotient := Nat.div_add_mod magnitude (Nat.pow 2 52)
  have size : Nat.pow 2 52 = 4503599627370496 := rfl
  rw [size] at whole quotient scaleEq
  exact Nat.mul_pos (by omega) (pow_two_pos _)

theorem exact_digits_size : power 2 2098 * power 5 1074 ≤ power 10 1384 ∧
    power 10 743 ≤ power 5 1074 ∧ 0 < power 5 1074 := by
  simp only [power_eq]
  decide +kernel

theorem exact_digits_count {magnitude : Nat} (positive : magnitude ≠ 0)
    (finite : magnitude < infinityMagnitude) :
    743 < (Integer.digits (units magnitude * power 5 1074)).length ∧
      (Integer.digits (units magnitude * power 5 1074)).length ≤ 1384 := by
  have size := exact_digits_size
  have bound := units_lt finite
  have nonzero := units_pos positive
  have counted (count : Nat) (counts : 0 < count) :
      (Integer.digits (units magnitude * power 5 1074)).length ≤ count ↔
        units magnitude * power 5 1074 < power 10 count := by
    rw [power_eq 10, Integer.digits_length_le_iff _ _ counts]
  have upper := (Nat.mul_lt_mul_of_pos_right bound size.2.2).trans_le size.1
  have lower := size.2.1.trans (Nat.le_mul_of_pos_left (power 5 1074) nonzero)
  exact ⟨Nat.lt_of_not_le fun short => absurd lower (Nat.not_le.mpr ((counted _ (by decide)).mp short)),
    (counted _ (by decide)).mpr upper⟩

theorem nearest_exact_digits {magnitude : Nat} (positive : magnitude ≠ 0)
    (finite : magnitude < infinityMagnitude) :
    (exactDigits magnitude).1 ≠ 0 ∧
      Decimal.nearestMagnitude (exactDigits magnitude).1 (exactDigits magnitude).2 =
        magnitude := by
  have count := exact_digits_count positive finite
  have itself := nearest_magnitude_units finite
  have reading := Decimal.nearest_ratio_exact (units magnitude) 1074
  have nonzero := Nat.pos_iff_ne_zero.mp (Nat.mul_pos (units_pos positive) exact_digits_size.2.2)
  simp only [exactDigits, ← power_eq]
  refine ⟨nonzero, ?_⟩
  rw [Decimal.nearest_magnitude_eq nonzero, if_neg (by omega), if_neg (by omega)]
  exact reading.trans itself

theorem nearest_of_reading {tie : Tie} {magnitude count digits : Nat} {exponent : Int}
    (read : nearestReading? tie magnitude count = some (digits, exponent)) :
    Decimal.nearestMagnitude digits exponent = magnitude := by
  simp only [nearestReading?] at read
  split at read
  · rename_i both
    obtain ⟨rfl, rfl⟩ := Prod.mk.inj (Option.some.inj read)
    split
    · exact both.2
    · exact both.1
  · split at read
    · rename_i lower
      obtain ⟨rfl, rfl⟩ := Prod.mk.inj (Option.some.inj read)
      exact lower
    · split at read
      · rename_i upper
        obtain ⟨rfl, rfl⟩ := Prod.mk.inj (Option.some.inj read)
        exact upper
      · cases read

theorem trim_zeros_nearest (fuel : Nat) {digits : Nat} (positive : digits ≠ 0) (exponent : Int) :
    (trimZeros fuel digits exponent).1 ≠ 0 ∧
      Decimal.nearestMagnitude (trimZeros fuel digits exponent).1
        (trimZeros fuel digits exponent).2 = Decimal.nearestMagnitude digits exponent := by
  induction fuel generalizing digits exponent with
  | zero => exact ⟨positive, rfl⟩
  | succ fuel ih =>
      by_cases zero : digits ≠ 0 ∧ digits % 10 = 0
      · have quotient : digits / 10 * 10 = digits := by omega
        have rest := ih (by omega : digits / 10 ≠ 0) (exponent + 1)
        rw [trimZeros, if_pos zero]
        refine ⟨rest.1, rest.2.trans ?_⟩
        rw [← Decimal.nearest_shift_one (by omega), quotient]
      · rw [trimZeros, if_neg zero]
        exact ⟨positive, rfl⟩

/-- A numeral that denotes a magnitude, written with some digits. -/
def Denotes (magnitude : Nat) (candidate : Nat × Int) : Prop :=
  candidate.1 ≠ 0 ∧ Decimal.nearestMagnitude candidate.1 candidate.2 = magnitude

theorem first_reading_denotes (tie : Tie) {magnitude : Nat} (positive : magnitude ≠ 0)
    (finite : magnitude < infinityMagnitude) : Denotes magnitude (firstReading tie magnitude) := by
  unfold firstReading
  cases search : ((List.range 17).map (· + 1)).findSome? (nearestReading? tie magnitude) with
  | none =>
      rw [Option.getD_none]
      exact nearest_exact_digits positive finite
  | some candidate =>
      obtain ⟨count, _, read⟩ := List.exists_of_findSome?_eq_some search
      have reads := nearest_of_reading read
      rw [Option.getD_some]
      refine ⟨fun zero => positive ?_, reads⟩
      rw [← reads, zero]
      rfl

/-- The shortest digits of a positive finite number denote it again. -/
theorem shortest_denotes (tie : Tie) {magnitude : Nat} (positive : magnitude ≠ 0)
    (finite : magnitude < infinityMagnitude) : Denotes magnitude (shortest tie magnitude) := by
  have denotes := first_reading_denotes tie positive finite
  have trimmed := trim_zeros_nearest 800 denotes.1 (firstReading tie magnitude).2
  exact ⟨trimmed.1, trimmed.2.trans denotes.2⟩

end Binary64
end TaskCab
