import Mathlib.Tactic.ByContra
import TaskCab.Json.Reader
import TaskCab.Proofs.Number.Numeral

/-!
# Numerals in JSON text

The text of an integer or of a finite float is one numeral, which is read back in front of anything that
does not go on with it. No numeral that is written has a needless zero in front.
-/

namespace TaskCab

namespace Numeral

def toJson (negative : Bool) (numeral : Numeral) : Json.Numeral :=
  ⟨negative, numeral.whole, if numeral.fraction.isEmpty then none else some numeral.fraction,
    numeral.exponent.map fun (sign, digits) => (sign = '-', digits)⟩

end Numeral

namespace Json

open TaskCab.Text

def isNumeralPart (character : Char) : Bool :=
  character.isDigit || character = '.' || character = 'e' || character = 'E'

def NoNeedlessZero (text : List Char) : Prop :=
  ∀ rest, text = '0' :: rest → Stops Char.isDigit rest

theorem stops_digits {rest : List Char} (ends : Stops isNumeralPart rest) :
    Stops Char.isDigit rest := by
  intro character member
  have := ends character member
  simp_all [isNumeralPart]

namespace Tree

theorem digits_run {run rest : List Char} (nonempty : run ≠ []) (digits : TaskCab.Numeral.IsDigits run)
    (stops : Stops Char.isDigit rest) : digits? (run ++ rest) = some (run, rest) := by
  have notEmpty : run.isEmpty = false := by simpa using nonempty
  simp [digits?, take_while_run digits stops, notEmpty]

theorem exponent_read {numeral : TaskCab.Numeral} (isNumber : numeral.IsNumber) {rest : List Char}
    (ends : Stops isNumeralPart rest) :
    exponent? (numeral.exponentText ++ rest) =
      some (numeral.exponent.map fun (sign, digits) => (decide (sign = '-'), digits), rest) := by
  unfold TaskCab.Numeral.exponentText
  cases exponent : numeral.exponent with
  | none =>
      cases rest with
      | nil => rfl
      | cons character rest =>
          have other : isNumeralPart character = false := stops_cons.mp ends
          simp only [isNumeralPart, Bool.or_eq_false_iff] at other
          simp [exponent?, other.2, other.1.2]
  | some parts =>
      obtain ⟨sign, digits⟩ := parts
      obtain ⟨isSign, nonempty, areDigits⟩ := isNumber.exponent sign digits exponent
      have read := digits_run nonempty areDigits (stops_digits ends)
      rcases isSign with rfl | rfl <;> simp [exponent?, read]

theorem fraction_read {numeral : TaskCab.Numeral} (isNumber : numeral.IsNumber) {rest : List Char}
    (ends : Stops isNumeralPart rest) :
    fraction? (numeral.fractionText ++ (numeral.exponentText ++ rest)) =
      some (if numeral.fraction.isEmpty then none else some numeral.fraction,
        numeral.exponentText ++ rest) := by
  have later : Stops Char.isDigit (numeral.exponentText ++ rest) := by
    unfold TaskCab.Numeral.exponentText
    split
    · simp
    · exact stops_digits ends
  unfold TaskCab.Numeral.fractionText
  split
  next =>
    have noPoint : (numeral.exponentText ++ rest).head? ≠ some '.' := by
      unfold TaskCab.Numeral.exponentText
      split
      · simp
      · intro head
        have := ends '.' (by simpa using head)
        simp [isNumeralPart] at this
    rw [List.nil_append]
    unfold fraction?
    split
    next point => simp [point] at noPoint
    next => rfl
  next nonempty =>
    have read := digits_run (by simpa using nonempty) isNumber.fraction later
    simp [fraction?, read]

theorem whole_read {numeral : TaskCab.Numeral} (isNumber : numeral.IsNumber)
    (proper : NoNeedlessZero numeral.text) {rest : List Char} (ends : Stops isNumeralPart rest) :
    whole? (numeral.text ++ rest) =
      some (numeral.whole, numeral.fractionText ++ (numeral.exponentText ++ rest)) := by
  have stops : Stops Char.isDigit (numeral.fractionText ++ (numeral.exponentText ++ rest)) := by
    unfold TaskCab.Numeral.fractionText TaskCab.Numeral.exponentText
    split
    · split
      · simp
      · exact stops_digits ends
    · simp
  have noZero : ¬((numeral.whole.head? = some '0') ∧ 1 < numeral.whole.length) := by
    rintro ⟨zero, long⟩
    obtain ⟨others, whole⟩ := List.head?_eq_some_iff.mp zero
    obtain ⟨second, others, rfl⟩ : ∃ second more, others = second :: more :=
      List.exists_cons_of_ne_nil (by rintro rfl; simp [whole] at long)
    have isDigit : second.isDigit = true := isNumber.whole.2 second (by simp [whole])
    have stop := proper (second :: others ++ numeral.fractionText ++ numeral.exponentText)
      (by simp [TaskCab.Numeral.text, whole]) second rfl
    rw [isDigit] at stop
    contradiction
  have read := digits_run isNumber.whole.1 isNumber.whole.2 stops
  have same : numeral.text ++ rest =
      numeral.whole ++ (numeral.fractionText ++ (numeral.exponentText ++ rest)) := by
    simp [TaskCab.Numeral.text]
  rw [whole?, same, read]
  simpa using noZero

/-- A numeral is read back from its text and a sign in front, up to where it cannot go on. -/
theorem numeral_read {numeral : TaskCab.Numeral} (isNumber : numeral.IsNumber)
    (proper : NoNeedlessZero numeral.text) (negative : Bool) {rest : List Char}
    (ends : Stops isNumeralPart rest) :
    numeral? ((if negative then ['-'] else []) ++ numeral.text ++ rest) =
      some (numeral.toJson negative, rest) := by
  obtain ⟨first, others, whole⟩ := List.exists_cons_of_ne_nil isNumber.whole.1
  have isDigit : first.isDigit = true := isNumber.whole.2 first (by simp [whole])
  have front : numeral.text = first :: (others ++ numeral.fractionText ++ numeral.exponentText) := by
    simp [TaskCab.Numeral.text, whole]
  have noSign : (numeral.text ++ rest).head? ≠ some '-' := by
    rw [front]
    rintro ⟨⟩
    simp at isDigit
  have unsigned : (if ((if negative then ['-'] else []) ++ numeral.text ++ rest).head? = some '-' then
      ((if negative then ['-'] else []) ++ numeral.text ++ rest).drop 1
      else (if negative then ['-'] else []) ++ numeral.text ++ rest) = numeral.text ++ rest := by
    cases negative with
    | true => simp
    | false => rw [if_neg (by simpa using noSign)]; simp
  have sign : decide (((if negative then ['-'] else []) ++ numeral.text ++ rest).head? = some '-') =
      negative := by
    cases negative with
    | true => simp
    | false => simpa using noSign
  rw [numeral?]
  simp only [sign, unsigned]
  rw [whole_read isNumber proper ends]
  simp only [Option.bind_eq_bind, Option.bind_some, fraction_read isNumber ends,
    exponent_read isNumber ends]
  rfl

theorem numeral_head {text : List Char} {result : Json.Numeral × List Char}
    (read : numeral? text = some result) :
    ∃ first others, text = first :: others ∧ (first.isDigit = true ∨ first = '-') := by
  cases text with
  | nil => simp [numeral?, whole?, digits?] at read
  | cons first others =>
      refine ⟨first, others, rfl, ?_⟩
      by_contra neither
      obtain ⟨noDigit, noMinus⟩ := not_or.mp neither
      simp [numeral?, whole?, digits?, noMinus, noDigit] at read

theorem value_numeral {text rest : List Char} {numeral : Json.Numeral}
    (read : numeral? text = some (numeral, rest)) (fuel : Nat) :
    value? (fuel + 1) text = some (.number numeral, rest) := by
  obtain ⟨first, others, rfl, starts⟩ := numeral_head read
  have different (character : Char) (noDigit : character.isDigit = false) (noMinus : character ≠ '-') :
      first ≠ character := by
    rintro rfl
    rcases starts with digit | minus
    · simp [digit] at noDigit
    · exact noMinus minus
  have visible : isSpace first = false := by
    simp [isSpace, different ' ' (by decide) (by decide),
      different '\n' (by decide) (by decide),
      different '\t' (by decide) (by decide),
      different '\r' (by decide) (by decide)]
  have skipped : skipSpace (first :: others) = first :: others := by simp [skipSpace, visible]
  rw [value?, skipped]
  simp only [if_neg (different '"' (by decide) (by decide)),
    if_neg (different '[' (by decide) (by decide)),
    if_neg (different '\x7b' (by decide) (by decide)),
    if_neg (different 'n' (by decide) (by decide)),
    if_neg (different 't' (by decide) (by decide)),
    if_neg (different 'f' (by decide) (by decide)), read]
  rfl

end Tree

/-! ### Integers -/

theorem no_needless_zero_of_head {text : List Char} (head : text.head? ≠ some '0') :
    NoNeedlessZero text := by
  rintro rest rfl
  simp at head

def integerNumeral (integer : Int) : Json.Numeral :=
  ⟨decide (integer < 0), Integer.digits integer.natAbs, none, none⟩

theorem integer_read (integer : Int) {rest : List Char} (ends : Stops isNumeralPart rest) :
    Tree.numeral? (Integer.render integer ++ rest) = some (integerNumeral integer, rest) := by
  have text : (⟨Integer.digits integer.natAbs, [], none⟩ : TaskCab.Numeral).text =
      Integer.digits integer.natAbs := by
    simp [TaskCab.Numeral.text, TaskCab.Numeral.fractionText, TaskCab.Numeral.exponentText]
  have isNumber : (⟨Integer.digits integer.natAbs, [], none⟩ : TaskCab.Numeral).IsNumber :=
    ⟨⟨Integer.digits_ne_nil _, TaskCab.Numeral.is_digits_digits _⟩, by simp [TaskCab.Numeral.IsDigits], by simp⟩
  have proper : NoNeedlessZero (Integer.digits integer.natAbs) := by
    by_cases zero : integer.natAbs = 0
    · rw [zero]
      rintro rest ⟨⟩
      exact stops_nil
    · exact no_needless_zero_of_head (Integer.first_digit_ne_zero zero)
  have read := Tree.numeral_read isNumber (by rwa [text]) (decide (integer < 0)) ends
  rw [text] at read
  rw [Integer.render_parts, read]
  rfl

/-! ### Floats -/

theorem float_text_of_finite {number : Binary64} (finite : number.isFinite = true) :
    floatText number = floatLayout.render number := if_pos finite

theorem no_needless_zero_positional {digits : List Char} (keepPoint : Bool) (whole : Int)
    (nonempty : digits ≠ []) (head : digits.head? ≠ some '0') :
    NoNeedlessZero (NumberLayout.positional keepPoint digits whole) := by
  obtain ⟨first, others, rfl⟩ := List.exists_cons_of_ne_nil nonempty
  have proper (text : List Char) : NoNeedlessZero (first :: text) :=
    no_needless_zero_of_head (by simpa using head)
  unfold NumberLayout.positional
  split
  next =>
    rintro rest ⟨⟩
    simp
  next below =>
    obtain ⟨count, positive⟩ : ∃ count, whole.toNat = count + 1 := ⟨whole.toNat - 1, by omega⟩
    dsimp only
    split
    next => exact proper _
    next => rw [positive]; exact proper _

theorem no_needless_zero_scientific {digits : List Char} (layout : NumberLayout) (exponent : Int)
    (nonempty : digits ≠ []) (head : digits.head? ≠ some '0') :
    NoNeedlessZero (layout.scientific digits exponent) := by
  obtain ⟨first, others, rfl⟩ := List.exists_cons_of_ne_nil nonempty
  refine no_needless_zero_of_head ?_
  cases others <;> simpa [NumberLayout.scientific] using head

theorem no_needless_zero_unsigned (layout : NumberLayout) (pointed : layout.keepPoint = true)
    {magnitude : Nat} (finite : magnitude < Binary64.infinityMagnitude) :
    NoNeedlessZero (layout.unsigned magnitude) := by
  by_cases zero : magnitude = 0
  · rw [NumberLayout.unsigned, if_pos zero, pointed]
    rintro rest ⟨⟩
    simp
  · have denotes := Binary64.shortest_denotes layout.tie zero finite
    have nonempty := Integer.digits_ne_nil (Binary64.shortest layout.tie magnitude).1
    have head := Integer.first_digit_ne_zero denotes.1
    rw [NumberLayout.unsigned, if_neg zero]
    dsimp only
    split
    · exact no_needless_zero_positional _ _ nonempty head
    · exact no_needless_zero_scientific _ _ nonempty head

/-- The text of a finite float is one numeral, which denotes its magnitude. -/
theorem float_read {number : Binary64} (finite : number.isFinite = true) :
    ∃ numeral : TaskCab.Numeral, numeral.IsNumber ∧ numeral.IsFloat ∧
      numeral.text = floatLayout.unsigned number.magnitude ∧
      (∃ digits exponent, numeral.Reads digits exponent ∧
        Decimal.nearestMagnitude digits exponent = number.magnitude) ∧
      ∀ rest, Stops isNumeralPart rest →
        Tree.numeral? (floatText number ++ rest) = some (numeral.toJson number.isNegative, rest) := by
  have small : number.magnitude < Binary64.infinityMagnitude := by
    simpa [Binary64.isFinite] using finite
  obtain ⟨numeral, isNumber, isFloat, text, denotes⟩ :=
    NumberLayout.spells_unsigned floatLayout rfl rfl small
  have proper := no_needless_zero_unsigned floatLayout rfl small
  rw [← text] at proper
  refine ⟨numeral, isNumber, isFloat, text, denotes, fun rest ends => ?_⟩
  have read := Tree.numeral_read isNumber proper number.isNegative ends
  rwa [text, ← NumberLayout.render_eq, ← float_text_of_finite finite] at read

end Json

end TaskCab
