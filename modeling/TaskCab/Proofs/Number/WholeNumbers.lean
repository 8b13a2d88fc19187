import TaskCab.Proofs.Number.Rounding
import TaskCab.Proofs.Reference.LooseEquality
import TaskCab.Proofs.Value.ExactIntegers

/-!
# Integers as double-precision numbers

The number that an integer is turned into stands for the nearest integer of fifty-three significant bits. An
integer below `2 ^ 53` is its own nearest one and no other integer's; beyond that, several integers share
theirs, and those are equal as numbers.
-/

namespace TaskCab.Binary64

/-! ## Nearest integers -/

/-- The place value of the last of fifty-three significant bits, at least one. -/
def lastPlace (number : Nat) : Nat := 2 ^ (number.log2 - 52)

def nearestWhole (number : Nat) : Nat := roundedQuotient number (lastPlace number) * lastPlace number

def nearestInteger (integer : Int) : Int :=
  if integer < 0 then -(nearestWhole integer.natAbs : Int) else nearestWhole integer.natAbs

theorem last_place_pos (number : Nat) : 0 < lastPlace number := Nat.two_pow_pos _

theorem nearest_whole_small {number : Nat} (small : number < 2 ^ 53) : nearestWhole number = number := by
  have bits : number.log2 - 52 = 0 := by
    by_cases zero : number = 0
    · simp [zero]
    · have := (Nat.log2_lt zero).mpr small
      omega
  have place : lastPlace number = 1 := by rw [lastPlace, bits, pow_zero]
  have itself := rounded_quotient_exact Nat.one_pos number
  rw [Nat.mul_one] at itself
  rw [nearestWhole, place, itself, Nat.mul_one]

theorem place_bounds {number : Nat} (large : 2 ^ 52 ≤ number) :
    2 ^ 52 * lastPlace number ≤ number ∧ number < 2 ^ 53 * lastPlace number := by
  have nonzero : number ≠ 0 := by omega
  have bits : 52 ≤ number.log2 := (Nat.le_log2 nonzero).mpr large
  have lower := Nat.log2_self_le nonzero
  have upper := Nat.lt_log2_self (n := number)
  rw [lastPlace, ← pow_add, ← pow_add]
  rw [show 52 + (number.log2 - 52) = number.log2 by omega,
    show 53 + (number.log2 - 52) = number.log2 + 1 by omega]
  exact ⟨lower, upper⟩

theorem nearest_whole_large {number : Nat} (large : 2 ^ 53 ≤ number) : 2 ^ 53 ≤ nearestWhole number := by
  have nonzero : number ≠ 0 := by omega
  have bits : 53 ≤ number.log2 := (Nat.le_log2 nonzero).mpr large
  have place : 2 ≤ lastPlace number := by
    rw [lastPlace]
    exact Nat.pow_le_pow_right Nat.two_pos (by omega : 1 ≤ number.log2 - 52)
  have quotient := le_rounded_quotient (last_place_pos number) (place_bounds (by omega)).1
  calc 2 ^ 53 = 2 ^ 52 * 2 := by decide
    _ ≤ nearestWhole number := Nat.mul_le_mul quotient place

/-- An integer below `2 ^ 53` shares its nearest integer with no other integer. -/
theorem nearest_integer_cancel {left right : Int} (small : left.natAbs < 2 ^ 53)
    (same : nearestInteger left = nearestInteger right) : left = right := by
  have kept := nearest_whole_small small
  rw [nearestInteger, nearestInteger, kept] at same
  by_cases other : right.natAbs < 2 ^ 53
  · rw [nearest_whole_small other] at same
    split at same <;> split at same <;> omega
  · have far := nearest_whole_large (Nat.le_of_not_lt other)
    split at same <;> split at same <;> omega

/-! ## The number of an integer -/

theorem log2_shift {number : Nat} (nonzero : number ≠ 0) (places : Nat) :
    (number * power 2 places).log2 = number.log2 + places := by
  have positive : 0 < 2 ^ places := Nat.two_pow_pos places
  have shifted : number * 2 ^ places ≠ 0 :=
    Nat.pos_iff_ne_zero.mp (Nat.mul_pos (Nat.pos_of_ne_zero nonzero) positive)
  rw [power_eq, Nat.pow_eq, Nat.log2_eq_iff shifted, Nat.add_right_comm, pow_add, pow_add]
  exact ⟨Nat.mul_le_mul_right _ (Nat.log2_self_le nonzero),
    Nat.mul_lt_mul_of_pos_right Nat.lt_log2_self positive⟩

theorem le_shift {number : Nat} (nonzero : number ≠ 0) (few places : Nat) (many : few ≤ places) :
    2 ^ few ≤ number * power 2 places := by
  rw [power_eq]
  exact (pow_two_le few places many).trans (Nat.le_mul_of_pos_left _ (Nat.pos_of_ne_zero nonzero))

/-- A significand that was rounded up to the next power of two counts the same one place higher. -/
theorem units_of_rounded {rounded : Nat} (lower : 2 ^ 52 ≤ rounded) (upper : rounded ≤ 2 ^ 53)
    (places : Nat) : units (places * Nat.pow 2 52 + rounded) = rounded * Nat.pow 2 places := by
  have size : Nat.pow 2 52 = 2 ^ 52 := rfl
  rcases Nat.lt_or_eq_of_le upper with inside | next
  · have scaleEq : scale (places * Nat.pow 2 52 + rounded) = places := by
      rw [scale, size]
      omega
    rw [units, significand, scaleEq, Nat.add_sub_cancel_left]
  · have scaleEq : scale (places * Nat.pow 2 52 + rounded) = places + 1 := by
      rw [scale, size, next]
      omega
    have significandEq : significand (places * Nat.pow 2 52 + rounded) = 2 ^ 52 := by
      rw [significand, scaleEq, size, next]
      omega
    rw [units, significandEq, scaleEq, next]
    change 2 ^ 52 * 2 ^ (places + 1) = 2 ^ 53 * 2 ^ places
    rw [← pow_add, ← pow_add, Nat.add_right_comm 52 1, Nat.add_assoc]

/-- Shifting an integer shifts its nearest one. -/
theorem nearest_whole_shift {number : Nat} (nonzero : number ≠ 0) (places : Nat) :
    nearestWhole (number * power 2 places) = nearestWhole number * power 2 places := by
  have place : lastPlace (number * power 2 places) = Nat.pow 2 (number.log2 + places - 52) := by
    rw [lastPlace, log2_shift nonzero]
    rfl
  rw [nearestWhole, place, power_eq]
  by_cases short : number.log2 ≤ 52
  · have small : number < 2 ^ 53 := (Nat.log2_lt nonzero).mp (by omega)
    have split : places = places - (number.log2 + places - 52) + (number.log2 + places - 52) := by omega
    have whole : Nat.pow 2 places = Nat.pow 2 (places - (number.log2 + places - 52)) *
        Nat.pow 2 (number.log2 + places - 52) := by
      rw [← pow_two_add, ← split]
    rw [nearest_whole_small small, whole, ← Nat.mul_assoc, rounded_quotient_exact (pow_two_pos _)]
  · have split : number.log2 + places - 52 = (number.log2 - 52) + places := by omega
    have shifted : Nat.pow 2 (number.log2 + places - 52) = lastPlace number * Nat.pow 2 places := by
      rw [split, pow_two_add]
      rfl
    rw [shifted, rounded_quotient_scale (pow_two_pos places), ← Nat.mul_assoc]
    rfl

/-- The magnitude of an integer: its exponent and its rounded significand. -/
theorem nearest_magnitude_whole (number : Nat) :
    nearestMagnitude number 1 =
      min (((number * power 2 1074).log2 - 52) * Nat.pow 2 52 +
        roundedQuotient (number * power 2 1074) (lastPlace (number * power 2 1074)))
          infinityMagnitude := by
  rw [power_eq]
  unfold nearestMagnitude roundedQuotient lastPlace
  generalize 1074 = places
  dsimp only
  rw [Nat.div_one, Nat.one_mul]
  rfl

/-- A rounded significand at its exponent is the nearest integer, as long as it is finite. -/
theorem units_of_nearest {number : Nat} (large : 2 ^ 52 ≤ number) (bits : number.log2 < 2096) :
    (number.log2 - 52) * Nat.pow 2 52 + roundedQuotient number (lastPlace number) < infinityMagnitude ∧
      units ((number.log2 - 52) * Nat.pow 2 52 + roundedQuotient number (lastPlace number)) =
        nearestWhole number := by
  have bounds := place_bounds large
  have lower := le_rounded_quotient (last_place_pos number) bounds.1
  have upper := rounded_quotient_le (last_place_pos number) bounds.2
  have limit : infinityMagnitude = 2047 * 2 ^ 52 := rfl
  have size : Nat.pow 2 52 = 2 ^ 52 := rfl
  refine ⟨?_, units_of_rounded lower upper _⟩
  rw [limit, size]
  omega

/-- The magnitude of an integer is finite and counts the nearest integer. -/
theorem units_of_whole {number : Nat} (bound : number < 2 ^ 64) :
    nearestMagnitude number 1 < infinityMagnitude ∧
      units (nearestMagnitude number 1) = nearestWhole number * power 2 1074 := by
  by_cases zero : number = 0
  · subst zero
    rw [power_eq]
    decide +kernel
  have bits : number.log2 < 64 := (Nat.log2_lt zero).mpr bound
  have exponent := log2_shift zero 1074
  have nearest := units_of_nearest (le_shift zero 52 1074 (by decide)) (by omega)
  rw [nearest_magnitude_whole, Nat.min_eq_left (Nat.le_of_lt nearest.1)]
  exact ⟨nearest.1, nearest.2.trans (nearest_whole_shift zero 1074)⟩

/-! ## Numbers as multiples of the smallest one -/

def signedUnits (number : Binary64) : Int :=
  if number.isNegative then -(units number.magnitude : Int) else units number.magnitude

theorem power_ne_zero (places : Nat) : (power 2 places : ℚ) ≠ 0 := by
  rw [power_eq]
  exact Nat.cast_ne_zero.mpr (Nat.pos_iff_ne_zero.mp (pow_two_pos places))

theorem exact_eq (number : Binary64) : number.exact = number.signedUnits / power 2 1074 := by
  rw [power_eq]
  unfold exact signedUnits
  generalize 1074 = places
  dsimp only
  split <;> push_cast
  · rw [neg_div]
  · rfl

theorem exact_inj {left right : Binary64} : left.exact = right.exact ↔ left.signedUnits = right.signedUnits := by
  rw [exact_eq, exact_eq, div_left_inj' (power_ne_zero 1074), Int.cast_inj]

/-- The number of an integer stands for the nearest integer. -/
theorem exact_of_int {integer : Int} (bound : integer.natAbs < 2 ^ 64) :
    (ofInt integer).isFinite = true ∧ (ofInt integer).exact = nearestInteger integer := by
  have whole := units_of_whole bound
  have limit : nearestMagnitude integer.natAbs 1 < 2 ^ 63 := whole.1.trans (by decide)
  have signed : (ofInt integer).signedUnits = nearestInteger integer * power 2 1074 := by
    rw [signedUnits, ofInt, magnitude_of_magnitude _ limit, is_negative_of_magnitude _ limit, whole.2,
      nearestInteger]
    by_cases negative : integer < 0
    · rw [if_pos (decide_eq_true negative), if_pos negative, Int.neg_mul, Nat.cast_mul]
    · rw [if_neg (by simpa using negative), if_neg negative, Nat.cast_mul]
  constructor
  · rw [isFinite, ofInt, magnitude_of_magnitude _ limit]
    exact decide_eq_true whole.1
  · rw [exact_eq, signed, Int.cast_mul, Int.cast_natCast, mul_div_cancel_right₀ _ (power_ne_zero 1074)]

theorem units_eq_zero {magnitude : Nat} : units magnitude = 0 ↔ magnitude = 0 := by
  constructor
  · intro none
    by_contra positive
    exact absurd none (Nat.pos_iff_ne_zero.mp (units_pos positive))
  · rintro rfl
    rfl

theorem units_cancel {left right : Nat} (finiteLeft : left < infinityMagnitude)
    (finiteRight : right < infinityMagnitude) (same : units left = units right) : left = right := by
  rw [← nearest_magnitude_units finiteLeft, same, nearest_magnitude_units finiteRight]

/-- Numeric equality of finite numbers is equality of what they stand for. -/
theorem numeric_eq_iff_exact {left right : Binary64} (finiteLeft : left.isFinite = true)
    (finiteRight : right.isFinite = true) :
    left.numericEq right = true ↔ left.exact = right.exact := by
  have shape : left.numericEq right = true ↔
      left = right ∨ (left.magnitude = 0 ∧ right.magnitude = 0) := by
    simp [numericEq, not_nan_of_finite finiteLeft, not_nan_of_finite finiteRight]
  rw [shape, exact_inj]
  constructor
  · rintro (rfl | ⟨noneLeft, noneRight⟩)
    · rfl
    · simp [signedUnits, noneLeft, noneRight, units_eq_zero.mpr rfl]
  · intro same
    unfold signedUnits at same
    by_cases signs : left.isNegative = right.isNegative
    · have agree : units left.magnitude = units right.magnitude := by
        rw [signs] at same
        split at same <;> omega
      have magnitudes := units_cancel (of_decide_eq_true finiteLeft) (of_decide_eq_true finiteRight) agree
      refine .inl ?_
      rw [← of_magnitude_magnitude left, ← of_magnitude_magnitude right, signs, magnitudes]
    · have none : units left.magnitude = 0 ∧ units right.magnitude = 0 := by
        split at same <;> split at same <;> first | omega | simp_all
      exact .inr ⟨units_eq_zero.mp none.1, units_eq_zero.mp none.2⟩

/-- Integers of sixty-four bits are equal as numbers exactly if they have the same nearest integer. -/
theorem numeric_eq_of_int {left right : Int} (boundLeft : left.natAbs < 2 ^ 64)
    (boundRight : right.natAbs < 2 ^ 64) :
    (ofInt left).numericEq (ofInt right) = true ↔ nearestInteger left = nearestInteger right := by
  have exactLeft := exact_of_int boundLeft
  have exactRight := exact_of_int boundRight
  rw [numeric_eq_iff_exact exactLeft.1 exactRight.1, exactLeft.2, exactRight.2, Int.cast_inj]

end TaskCab.Binary64
