import TaskCab.Proofs.Number.Nearest

/-!
# Rounding keeps the order

The nearest number of a quotient grows with the quotient, and what a magnitude stands for grows with the
magnitude. A bound on a rounded result follows therefore from the same computation on a bound of what goes
in.
-/

namespace TaskCab.Binary64

/-! ## Rounded quotients -/

/-- The integer nearest to a quotient. A tie goes to the even one. -/
def roundedQuotient (top bottom : Nat) : Nat :=
  if 2 * (top % bottom) < bottom ∨ (2 * (top % bottom) = bottom ∧ top / bottom % 2 = 0) then top / bottom
  else top / bottom + 1

theorem rounded_quotient_scale {factor : Nat} (positive : 0 < factor) (top bottom : Nat) :
    roundedQuotient (top * factor) (bottom * factor) = roundedQuotient top bottom := by
  unfold roundedQuotient
  rw [Nat.mul_div_mul_right _ _ positive, Nat.mul_mod_mul_right, ← Nat.mul_assoc]
  simp only [Nat.mul_lt_mul_right positive, Nat.mul_left_inj (Nat.pos_iff_ne_zero.mp positive)]

theorem rounded_quotient_exact {bottom : Nat} (positive : 0 < bottom) (quotient : Nat) :
    roundedQuotient (quotient * bottom) bottom = quotient := by
  rw [roundedQuotient, Nat.mul_div_cancel _ positive, Nat.mul_mod_left, if_pos (.inl (by omega))]

theorem le_rounded_quotient {top bottom lower : Nat} (positive : 0 < bottom) (below : lower * bottom ≤ top) :
    lower ≤ roundedQuotient top bottom := by
  have quotient := (Nat.le_div_iff_mul_le positive).mpr below
  unfold roundedQuotient
  split <;> omega

theorem rounded_quotient_le {top bottom upper : Nat} (positive : 0 < bottom) (above : top < upper * bottom) :
    roundedQuotient top bottom ≤ upper := by
  have quotient := (Nat.div_lt_iff_lt_mul positive).mpr above
  unfold roundedQuotient
  split <;> omega

theorem rounded_quotient_mono {small large : Nat} (le : small ≤ large) (bottom : Nat) :
    roundedQuotient small bottom ≤ roundedQuotient large bottom := by
  have quotients := Nat.div_le_div_right (c := bottom) le
  rcases Nat.lt_or_eq_of_le quotients with less | same
  · unfold roundedQuotient
    split <;> split <;> omega
  · have parts := Nat.div_add_mod small bottom
    have others := Nat.div_add_mod large bottom
    rw [same] at parts
    unfold roundedQuotient
    rw [same]
    split <;> split <;> omega

/-! ## Nearest magnitudes -/

/-- The exponent of the last place of a quotient, counted like that of a magnitude. -/
def quotientScale (top bottom : Nat) : Nat := (top / bottom).log2 - 52

def quotientPlace (top bottom : Nat) : Nat := bottom * Nat.pow 2 (quotientScale top bottom)

/-- The magnitude of a quotient in the unit of magnitudes, were there no largest one. -/
def unboundedMagnitude (top bottom : Nat) : Nat :=
  quotientScale top bottom * Nat.pow 2 52 + roundedQuotient top (quotientPlace top bottom)

theorem nearest_magnitude_unbounded (top bottom : Nat) :
    nearestMagnitude top bottom = min (unboundedMagnitude (top * power 2 1074) bottom) infinityMagnitude := by
  rw [power_eq]
  unfold nearestMagnitude
  generalize 1074 = places
  rfl

/-- A quotient has at most fifty-three bits in front of its last place, and fewer at the lowest place only. -/
theorem quotient_bounds {bottom : Nat} (positive : 0 < bottom) (top : Nat) :
    top < 2 ^ 53 * quotientPlace top bottom ∧
      (quotientScale top bottom ≠ 0 → 2 ^ 52 * quotientPlace top bottom ≤ top) := by
  have split (bits : Nat) : 2 ^ bits * quotientPlace top bottom =
      2 ^ (bits + quotientScale top bottom) * bottom := by
    rw [quotientPlace, Nat.pow_eq, pow_add, Nat.mul_comm bottom, Nat.mul_assoc]
  rw [split, split]
  have upper : top / bottom < 2 ^ (53 + quotientScale top bottom) := by
    refine Nat.lt_log2_self.trans_le (Nat.pow_le_pow_right Nat.two_pos ?_)
    rw [quotientScale]
    omega
  refine ⟨(Nat.div_lt_iff_lt_mul positive).mp upper, fun scaled => ?_⟩
  have bits : 52 + quotientScale top bottom = (top / bottom).log2 := by
    rw [quotientScale] at scaled ⊢
    omega
  have nonzero : top / bottom ≠ 0 := by
    intro zero
    rw [quotientScale, zero] at scaled
    exact scaled rfl
  rw [bits]
  exact (Nat.le_div_iff_mul_le positive).mp (Nat.log2_self_le nonzero)

theorem quotient_place_pos {bottom : Nat} (positive : 0 < bottom) (top : Nat) :
    0 < quotientPlace top bottom := Nat.mul_pos positive (pow_two_pos _)

theorem unbounded_magnitude_mono {small large bottom : Nat} (positive : 0 < bottom) (le : small ≤ large) :
    unboundedMagnitude small bottom ≤ unboundedMagnitude large bottom := by
  have scales : quotientScale small bottom ≤ quotientScale large bottom := by
    rw [quotientScale, quotientScale, Nat.log2_eq_log_two, Nat.log2_eq_log_two]
    exact Nat.sub_le_sub_right (Nat.log_mono_right (Nat.div_le_div_right le)) 52
  rcases Nat.lt_or_eq_of_le scales with less | same
  · have lower := rounded_quotient_le (quotient_place_pos positive small) (quotient_bounds positive small).1
    have upper := le_rounded_quotient (quotient_place_pos positive large)
      ((quotient_bounds positive large).2 (by omega))
    have size : Nat.pow 2 52 = 2 ^ 52 := rfl
    rw [unboundedMagnitude, unboundedMagnitude, size]
    omega
  · have place : quotientPlace small bottom = quotientPlace large bottom := by
      rw [quotientPlace, quotientPlace, same]
    have rounded := rounded_quotient_mono le (quotientPlace large bottom)
    rw [unboundedMagnitude, unboundedMagnitude, same, place]
    exact Nat.add_le_add_left rounded _

/-- A larger quotient has no smaller nearest magnitude. -/
theorem nearest_magnitude_mono {top bottom otherTop otherBottom : Nat} (positive : 0 < bottom)
    (otherPositive : 0 < otherBottom) (le : top * otherBottom ≤ otherTop * bottom) :
    nearestMagnitude top bottom ≤ nearestMagnitude otherTop otherBottom := by
  rw [← nearest_magnitude_scale otherBottom top bottom otherPositive,
    ← nearest_magnitude_scale bottom otherTop otherBottom positive, Nat.mul_comm otherBottom bottom,
    nearest_magnitude_unbounded, nearest_magnitude_unbounded]
  have grown := unbounded_magnitude_mono (Nat.mul_pos positive otherPositive)
    (Nat.mul_le_mul_right (power 2 1074) le)
  exact min_le_min_right _ grown

/-! ## What magnitudes stand for -/

theorem significand_bounds (magnitude : Nat) :
    significand magnitude < 2 ^ 53 ∧ (scale magnitude ≠ 0 → 2 ^ 52 ≤ significand magnitude) := by
  have whole := significand_scale magnitude
  have quotient := Nat.div_add_mod magnitude (2 ^ 52)
  have remainder := Nat.mod_lt magnitude (by decide : 2 ^ 52 > 0)
  have scaleEq : scale magnitude = magnitude / 2 ^ 52 - 1 := rfl
  have size : Nat.pow 2 52 = 2 ^ 52 := rfl
  rw [size] at whole
  constructor
  · omega
  · intro scaled
    omega

theorem units_mono {small large : Nat} (le : small ≤ large) : units small ≤ units large := by
  have scales : scale small ≤ scale large := Nat.sub_le_sub_right (Nat.div_le_div_right le) 1
  have parts := significand_scale small
  have others := significand_scale large
  rcases Nat.lt_or_eq_of_le scales with less | same
  · have lower := (significand_bounds small).1
    have upper := (significand_bounds large).2 (by omega)
    calc units small ≤ 2 ^ 53 * 2 ^ scale small := Nat.mul_le_mul_right _ (Nat.le_of_lt lower)
      _ = 2 ^ 52 * 2 ^ (scale small + 1) := by rw [← pow_add, ← pow_add]; congr 1; omega
      _ ≤ 2 ^ 52 * 2 ^ scale large := Nat.mul_le_mul_left _ (Nat.pow_le_pow_right Nat.two_pos less)
      _ ≤ units large := Nat.mul_le_mul_right _ upper
  · rw [same] at parts
    rw [units, units, same]
    exact Nat.mul_le_mul_right _ (by omega)

theorem times_magnitude_mono {small large factor otherFactor : Nat} (le : small ≤ large)
    (factors : factor ≤ otherFactor) : timesMagnitude small factor ≤ timesMagnitude large otherFactor := by
  unfold timesMagnitude
  generalize 1074 = places
  have positive : 0 < Nat.pow 2 places * Nat.pow 2 places := Nat.mul_pos (pow_two_pos _) (pow_two_pos _)
  exact nearest_magnitude_mono positive positive
    (Nat.mul_le_mul_right _ (Nat.mul_le_mul (units_mono le) (units_mono factors)))

end TaskCab.Binary64
