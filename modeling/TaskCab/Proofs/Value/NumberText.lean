import TaskCab.Proofs.Number.Numeral
import TaskCab.Proofs.Text.Trim
import TaskCab.Value

/-!
# The characters of number texts

Numbers are written with printed characters of ASCII only.
-/

namespace TaskCab.Value

open TaskCab.Text

/-- Whether a character is a digit, a sign, a point, an exponent mark or a letter of `nan` or `inf`. -/
def IsNumberChar (character : Char) : Prop :=
  character.isDigit = true ∨ character ∈ ".e+-naif".toList

instance : DecidablePred IsNumberChar :=
  fun character => inferInstanceAs (Decidable (character.isDigit = true ∨ character ∈ ".e+-naif".toList))

def IsNumberText (text : List Char) : Prop :=
  text ≠ [] ∧ ∀ character ∈ text, IsNumberChar character

theorem graphic_of_number_char {character : Char} (isNumber : IsNumberChar character) :
    IsGraphic character := by
  rcases isNumber with isDigit | mark
  · obtain ⟨lower, upper⟩ := code_of_digit isDigit
    exact ⟨by omega, by omega⟩
  · exact (by decide : ∀ c ∈ ".e+-naif".toList, IsGraphic c) character mark

theorem graphic_of_number_text {text : List Char} (isNumberText : IsNumberText text) :
    ∀ character ∈ text, IsGraphic character :=
  fun character member => graphic_of_number_char (isNumberText.2 character member)

theorem numeral_is_number_text {numeral : Numeral} (isNumber : numeral.IsNumber) :
    IsNumberText numeral.text := by
  constructor
  · simp [Numeral.text, isNumber.whole.1]
  intro character member
  refine (Numeral.digit_or_mark isNumber member).imp_right fun mark => ?_
  exact (by decide : ∀ c ∈ ".e+-".toList, c ∈ ".e+-naif".toList) character mark

theorem signed_is_number_text {text : List Char} (isNumberText : IsNumberText text)
    (negative : Bool) : IsNumberText ((if negative then ['-'] else []) ++ text) := by
  cases negative with
  | false => exact isNumberText
  | true =>
      constructor
      · simp
      · exact List.forall_mem_cons.mpr ⟨by decide, isNumberText.2⟩

theorem int_is_number_text (integer : Int) : IsNumberText (Integer.render integer) := by
  have digits : IsNumberText (Integer.digits integer.natAbs) := by
    constructor
    · exact Integer.digits_ne_nil _
    · intro character member
      exact .inl (Integer.is_digit_of_mem_digits member)
  rw [Integer.render_parts]
  exact signed_is_number_text digits (decide (integer < 0))

theorem float_is_number_text (number : Binary64) : IsNumberText (floatLiteral number) := by
  unfold floatLiteral
  by_cases nan : number.isNaN = true
  · rw [if_pos nan]
    exact ⟨List.cons_ne_nil 'n' _, by decide⟩
  rw [if_neg nan]
  by_cases infinite : number.isInfinite = true
  · rw [if_pos infinite]
    cases number.isNegative with
    | false => exact ⟨List.cons_ne_nil 'i' _, by decide⟩
    | true => exact ⟨List.cons_ne_nil '-' _, by decide⟩
  · have finite : number.magnitude < Binary64.infinityMagnitude := by
      simp only [Binary64.isNaN, Binary64.isInfinite, decide_eq_true_eq] at nan infinite
      omega
    obtain ⟨numeral, isNumber, -, text, -⟩ :=
      NumberLayout.spells_unsigned floatLayout rfl rfl finite
    rw [if_neg infinite, NumberLayout.render_eq, ← text]
    exact signed_is_number_text (numeral_is_number_text isNumber) _

end TaskCab.Value
