import Mathlib.Data.Nat.Digits.Defs
import Mathlib.Tactic.IntervalCases
import TaskCab.Number.Decimal
import TaskCab.Proofs.Text.Trim

/-!
# Digits read back

A run of decimal digits has a value, which grows with each digit by the rule of place value. Writing a
number in digits and reading the digits gives the number back, and reading never fails on digits alone.
-/

namespace TaskCab.Integer

theorem digit_char_value {digit : Nat} (small : digit < 10) :
    digitValue? 10 digit.digitChar = some digit := by
  revert small
  revert digit
  decide

theorem read_digits_append (radix start : Nat) (left right : List Char) :
    readDigits? radix start (left ++ right) =
      (readDigits? radix start left).bind fun value => readDigits? radix value right := by
  induction left generalizing start with
  | nil => rfl
  | cons character left ih =>
      simp only [List.cons_append, readDigits?]
      cases digitValue? radix character with
      | none => rfl
      | some value => exact ih _

theorem is_digit_of_mem_digits {number : Nat} {character : Char}
    (member : character ∈ digits number) : character.isDigit = true :=
  Nat.isDigit_of_mem_toDigits (by decide) (by decide) member

theorem digits_ne_nil (number : Nat) : digits number ≠ [] := Nat.toDigits_ne_nil

theorem render_parts (integer : Int) :
    render integer = (if decide (integer < 0) then ['-'] else []) ++ digits integer.natAbs := by
  by_cases negative : integer < 0 <;> simp [render, negative]

theorem digits_of_lt {number : Nat} (small : number < 10) : digits number = [number.digitChar] :=
  Nat.toDigits_of_lt_base small

theorem digits_step {number : Nat} (large : 10 ≤ number) :
    digits number = digits (number / 10) ++ [(number % 10).digitChar] :=
  Nat.toDigits_of_base_le (by decide) large

theorem digit_char_ne_zero {digit : Nat} (small : digit < 10) (positive : digit ≠ 0) :
    digit.digitChar ≠ '0' := by
  revert positive
  revert digit
  decide

theorem first_digit_ne_zero {number : Nat} (positive : number ≠ 0) :
    (digits number).head? ≠ some '0' := by
  induction number using Nat.strongRecOn with
  | ind number ih =>
      by_cases small : number < 10
      · rw [digits_of_lt small]
        simpa using digit_char_ne_zero small positive
      · rw [digits_step (by omega)]
        have earlier := ih (number / 10) (by omega) (by omega)
        have nonempty := digits_ne_nil (number / 10)
        obtain ⟨first, others, whole⟩ := List.exists_cons_of_ne_nil nonempty
        rw [whole] at earlier ⊢
        exact earlier

theorem read_digits_digits (number : Nat) : readDigits? 10 0 (digits number) = some number := by
  induction number using Nat.strongRecOn with
  | ind number ih =>
      by_cases small : number < 10
      · rw [digits_of_lt small]
        simp [readDigits?, digit_char_value small]
      · rw [digits_step (by omega), read_digits_append, ih _ (by omega)]
        simp only [Option.bind_some, readDigits?,
          digit_char_value (Nat.mod_lt number (by decide : 0 < 10))]
        change some (number / 10 * 10 + number % 10) = some number
        congr 1
        omega

theorem read_nat_digits (number : Nat) : readNat? 10 (digits number) = some number := by
  have nonempty : (digits number).isEmpty = false := by simp [digits_ne_nil]
  rw [readNat?, nonempty, if_neg (by simp), read_digits_digits]

theorem read_digits_zeros (count : Nat) (text : List Char) :
    readDigits? 10 0 (List.replicate count '0' ++ text) = readDigits? 10 0 text := by
  induction count with
  | zero => rfl
  | succ count ih => exact ih

theorem digit_value {character : Char} (isDigit : character.isDigit = true) :
    ∃ value, digitValue? 10 character = some value ∧ (value = 0 ↔ character = '0') := by
  obtain ⟨lower, upper⟩ := Text.code_of_digit isDigit
  rw [← Char.ofNat_toNat character]
  generalize character.toNat = code at *
  interval_cases code <;> exact ⟨_, rfl, by decide⟩

theorem read_digits_run {text : List Char} (areDigits : ∀ c ∈ text, c.isDigit = true) (start : Nat) :
    ∃ value, readDigits? 10 start text = some value ∧
      (value = 0 ↔ start = 0 ∧ ∀ character ∈ text, character = '0') := by
  induction text generalizing start with
  | nil => exact ⟨start, rfl, by simp⟩
  | cons character rest ih =>
      obtain ⟨first, later⟩ := List.forall_mem_cons.mp areDigits
      obtain ⟨digit, read, zero⟩ := digit_value first
      obtain ⟨value, readRest, zeros⟩ := ih later (start * 10 + digit)
      refine ⟨value, ?_, ?_⟩
      · rw [readDigits?, read]
        exact readRest
      · rw [zeros, List.forall_mem_cons, ← zero]
        constructor
        · intro ends
          exact ⟨by omega, by omega, ends.2⟩
        · intro ends
          exact ⟨by omega, ends.2.2⟩

theorem is_digit_of_value {character : Char} {value : Nat} (read : digitValue? 10 character = some value) :
    character.isDigit = true := by
  cases isDigit : character.isDigit with
  | true => rfl
  | false =>
      have large : ¬(if 'a' ≤ character ∧ character ≤ 'f' then character.toNat - 'a'.toNat + 10
          else if 'A' ≤ character ∧ character ≤ 'F' then character.toNat - 'A'.toNat + 10 else 10) < 10 := by
        split_ifs <;> omega
      rw [digitValue?, isDigit, if_neg Bool.false_ne_true, if_neg large] at read
      simp at read

theorem is_digit_of_read {text : List Char} {start value : Nat}
    (read : readDigits? 10 start text = some value) : ∀ character ∈ text, character.isDigit = true := by
  induction text generalizing start with
  | nil => exact List.forall_mem_nil _
  | cons character rest ih =>
      obtain ⟨digit, readFirst, readRest⟩ := Option.bind_eq_some_iff.mp read
      exact List.forall_mem_cons.mpr ⟨is_digit_of_value readFirst, ih readRest⟩

theorem read_digits_trailing_zeros {start value : Nat} {text : List Char} (count : Nat)
    (read : readDigits? 10 start text = some value) :
    readDigits? 10 start (text ++ List.replicate count '0') = some (value * 10 ^ count) := by
  induction count with
  | zero => simpa using read
  | succ count ih =>
      rw [List.replicate_succ', ← List.append_assoc, read_digits_append, ih]
      change some (value * 10 ^ count * 10 + 0) = _
      rw [pow_succ, Nat.add_zero, Nat.mul_assoc]

/-- Multiplying by ten adds a zero at the end, unless there is nothing to multiply. -/
theorem digits_length_mul_ten {number : Nat} (positive : number ≠ 0) :
    (digits (number * 10)).length = (digits number).length + 1 := by
  rw [digits_step (by omega : 10 ≤ number * 10), Nat.mul_div_cancel _ (by decide)]
  simp

theorem digits_length_le_iff (number count : Nat) (positive : 0 < count) :
    (digits number).length ≤ count ↔ number < Nat.pow 10 count :=
  Nat.length_toDigits_le_iff (by decide) positive

end TaskCab.Integer
