import Mathlib.Data.Rat.Floor
import TaskCab.Proofs.Docstring.Encodings
import TaskCab.Proofs.Value.ExpressionValues

/-!
# Integers are exact

An expression of integers stands for an integer of any size. What it is read as is that integer, except
where `int` is called around a float beyond the range of words: there the integer is replaced by the nearest
word. Everywhere else an integer that is no word keeps the expression from having a value.
-/

namespace TaskCab

/-! ## Words -/

namespace Integer

/-- Whether an integer is in the range of signed words of sixty-four bits. -/
def IsWord (integer : Int) : Prop := -2 ^ 63 ≤ integer ∧ integer < 2 ^ 63

instance : DecidablePred IsWord := fun _ => inferInstanceAs (Decidable (_ ∧ _))

variable {integer : Int}

theorem is_word_iff : IsWord integer ↔ Int64.minValue.toInt ≤ integer ∧ integer ≤ Int64.maxValue.toInt := by
  have least : Int64.minValue.toInt = -2 ^ 63 := by decide
  have greatest : Int64.maxValue.toInt = 2 ^ 63 - 1 := by decide
  rw [IsWord, least, greatest]
  omega

theorem word_of_is_word (isWord : IsWord integer) : word? integer = some (Int64.ofInt integer) := by
  rw [word?, if_pos (is_word_iff.mp isWord)]

theorem word_none (beyond : ¬IsWord integer) : word? integer = none := by
  rw [word?, if_neg (fun bounds => beyond (is_word_iff.mpr bounds))]

theorem to_int_of_is_word (isWord : IsWord integer) : (Int64.ofInt integer).toInt = integer :=
  to_int_of_word (word_of_is_word isWord)

theorem is_word_to_int (word : Int64) : IsWord word.toInt :=
  is_word_iff.mpr ⟨Int64.minValue_le_toInt word, Int64.toInt_le word⟩

theorem clamp_of_is_word (isWord : IsWord integer) : clamp integer = Int64.ofInt integer := by
  have bounds := is_word_iff.mp isWord
  rw [clamp, if_neg (by omega), if_neg (by omega)]

/-- The nearest word of an integer beyond the range of words is closer to zero. -/
theorem clamp_beyond (beyond : ¬IsWord integer) : (clamp integer).toInt.natAbs < integer.natAbs := by
  have least : Int64.minValue.toInt = -2 ^ 63 := by decide
  have greatest : Int64.maxValue.toInt = 2 ^ 63 - 1 := by decide
  rw [is_word_iff] at beyond
  by_cases below : integer < Int64.minValue.toInt
  · rw [clamp, if_pos below]
    omega
  · have above : Int64.maxValue.toInt < integer := by omega
    rw [clamp, if_neg below, if_pos above]
    omega

end Integer

/-! ## Truncated floats -/

namespace Binary64

def exact (number : Binary64) : ℚ :=
  let magnitude : ℚ := units number.magnitude / Nat.pow 2 1074
  if number.isNegative then -magnitude else magnitude

def towardsZero (rational : ℚ) : Int := if 0 ≤ rational then ⌊rational⌋ else ⌈rational⌉

theorem towards_zero_neg (rational : ℚ) : towardsZero (-rational) = -towardsZero rational := by
  unfold towardsZero
  rcases lt_trichotomy rational 0 with negative | rfl | positive
  · rw [if_pos (by linarith), if_neg (by linarith), Int.floor_neg]
  · simp
  · rw [if_neg (by linarith), if_pos (by linarith), Int.ceil_neg]

/-- Truncating gives the integer part of what a number stands for. -/
theorem truncate_exact (number : Binary64) : number.truncate = towardsZero number.exact := by
  have whole (top bottom : Nat) : towardsZero ((top : ℚ) / bottom) = (top / bottom : Int) := by
    rw [towardsZero, if_pos (by positivity), Rat.floor_natCast_div_natCast]
  unfold truncate exact
  dsimp only
  -- The power is too large to be written out.
  generalize Nat.pow 2 1074 = bottom
  cases number.isNegative with
  | false => rw [if_neg (by decide), if_neg (by decide), whole]
  | true => rw [if_pos rfl, if_pos rfl, towards_zero_neg, whole]

end Binary64

namespace Source

open TaskCab.Text Literal Integer

/-! ## Meanings -/

/-- What an expression stands for. -/
inductive Meaning where
  | integer (number : Int)
  | float (number : Binary64)
  | truth (holds : Bool)
  | digits (string : DigitString)

namespace Meaning

/-- A truth value counts as zero or one behind a sign, and a string cannot have one. -/
def signed (negative : Bool) : Meaning → Option Meaning
  | integer number => some (.integer (if negative then -number else number))
  | float number => some (.float (if negative then number.neg else number))
  | truth holds => some (.integer (if negative then -holds.toInt else holds.toInt))
  | digits _ => none

/-- What `int` makes of an argument. A float has to be finite. -/
def toInteger : Meaning → Option Int
  | integer number => some number
  | float number => if number.isFinite then some (Binary64.towardsZero number.exact) else none
  | truth holds => some holds.toInt
  | digits string => some string.number

inductive Is : Meaning → Value → Prop
  | integer (word : Int64) : Is (.integer word.toInt) (.int word)
  | float (number : Binary64) : Is (.float number) (.float number)
  | truth (holds : Bool) : Is (.truth holds) (.bool holds)
  | digits (string : DigitString) : Is (.digits string) (.str (String.ofList string.body))

/-- A word that stands in the place of an integer further from zero. -/
inductive IsCut : Meaning → Value → Prop
  | integer {number : Int} {word : Int64} (closer : word.toInt.natAbs < number.natAbs) :
      IsCut (.integer number) (.int word)

variable {meaning : Meaning} {value result : Value}

theorem is_integer {number : Int} {word : Int64} (same : word.toInt = number) :
    Is (.integer number) (.int word) := same ▸ .integer word

/-- A sign gives what it stands for, if it gives a value. -/
theorem signed_is (isValue : meaning.Is value) {negative : Bool}
    (found : (if negative then negate? else affirm?) value = some result) :
    ∃ next, meaning.signed negative = some next ∧ next.Is result := by
  cases isValue with
  | integer word =>
      cases negative with
      | false =>
          obtain rfl := Option.some.inj found
          exact ⟨_, rfl, .integer word⟩
      | true =>
          obtain ⟨other, isWord, rfl⟩ := Option.map_eq_some_iff.mp found
          exact ⟨_, rfl, is_integer (to_int_of_word isWord)⟩
  | float number =>
      cases negative <;> obtain rfl := Option.some.inj found <;> exact ⟨_, rfl, .float _⟩
  | truth holds => cases negative <;> cases found
  | digits string => cases negative <;> cases found

theorem signed_cut (isCut : meaning.IsCut value) {negative : Bool}
    (found : (if negative then negate? else affirm?) value = some result) :
    ∃ next, meaning.signed negative = some next ∧ next.IsCut result := by
  cases isCut with
  | integer closer =>
      cases negative with
      | false =>
          obtain rfl := Option.some.inj found
          exact ⟨_, rfl, .integer closer⟩
      | true =>
          obtain ⟨other, isWord, rfl⟩ := Option.map_eq_some_iff.mp found
          refine ⟨_, rfl, .integer ?_⟩
          rw [to_int_of_word isWord, if_pos rfl, Int.natAbs_neg, Int.natAbs_neg]
          exact closer

/-- The digits of a string are read as their number, if that is a word. -/
theorem to_int_digits {string : DigitString} (nonempty : string.digits ≠ []) :
    toInt? (.str (String.ofList string.body)) = (word? string.number).map .int := by
  have filled : string.body ≠ [] := by simpa [DigitString.body] using nonempty
  have read := read_signed filled string.body_digits string.read_body false
  simp only [Bool.false_eq_true, if_false, List.nil_append] at read
  rw [toInt?, String.toList_ofList, trim_of_framed (framed_of_graphic filled string.body_graphic), readWord?,
    read]
  rfl

/-- Whether `int` replaces the integer part of a float by another word. -/
def Overflows (meaning : Meaning) : Prop :=
  ∃ number, meaning = .float number ∧ ¬IsWord (Binary64.towardsZero number.exact)

def IsProper : Meaning → Prop
  | digits string => string.digits ≠ []
  | _ => True

theorem to_int_float {number : Binary64} (found : toInt? (.float number) = some result) :
    toInteger (.float number) = some (Binary64.towardsZero number.exact) ∧
      result = .int (clamp (Binary64.towardsZero number.exact)) := by
  rw [toInt?, number.truncate_exact] at found
  split at found
  next finite =>
    obtain rfl := Option.some.inj found
    rw [toInteger, if_pos finite]
    exact ⟨rfl, rfl⟩
  next => cases found

/-- A call of `int` gives the integer that it stands for, unless a float is beyond the range of words. -/
theorem to_integer_is (isValue : meaning.Is value) (proper : meaning.IsProper)
    (found : toInt? value = some result) :
    ∃ number, meaning.toInteger = some number ∧
      (¬meaning.Overflows → Is (.integer number) result) ∧
        (meaning.Overflows → IsCut (.integer number) result) := by
  have only {number : Int} (noFloat : ∀ number, meaning ≠ .float number)
      (same : Is (.integer number) result) :
      (¬meaning.Overflows → Is (.integer number) result) ∧
        (meaning.Overflows → IsCut (.integer number) result) := by
    constructor
    · exact fun _ => same
    · rintro ⟨number, isFloat, -⟩
      exact absurd isFloat (noFloat number)
  cases isValue with
  | integer word =>
      obtain rfl := Option.some.inj found
      exact ⟨word.toInt, rfl, only nofun (.integer word)⟩
  | float number =>
      obtain ⟨integer, rfl⟩ := to_int_float found
      refine ⟨_, integer, ?_, ?_⟩
      · intro fits
        have isWord : IsWord (Binary64.towardsZero number.exact) :=
          Decidable.byContradiction fun beyond => fits ⟨number, rfl, beyond⟩
        rw [clamp_of_is_word isWord]
        exact is_integer (to_int_of_is_word isWord)
      · rintro ⟨other, same, beyond⟩
        obtain rfl := Meaning.float.inj same
        exact .integer (clamp_beyond beyond)
  | truth holds =>
      obtain rfl := Option.some.inj found
      exact ⟨holds.toInt, rfl, only nofun (by cases holds <;> exact is_integer rfl)⟩
  | digits string =>
      rw [to_int_digits proper] at found
      obtain ⟨word, isWord, rfl⟩ := Option.map_eq_some_iff.mp found
      exact ⟨string.number, rfl, only nofun (is_integer (to_int_of_word isWord))⟩

theorem to_integer_cut (isCut : meaning.IsCut value) (found : toInt? value = some result) :
    ∃ number, meaning.toInteger = some number ∧ IsCut (.integer number) result := by
  cases isCut with
  | integer closer =>
      obtain rfl := Option.some.inj found
      exact ⟨_, rfl, .integer closer⟩

def InRange : Meaning → Prop
  | integer number => IsWord number
  | _ => True

theorem value_of_signed (isValue : meaning.Is value) {negative : Bool} {next : Meaning}
    (step : meaning.signed negative = some next) (noTruth : ∀ holds, meaning ≠ .truth holds)
    (inRange : next.InRange) :
    ∃ result, (if negative then negate? else affirm?) value = some result ∧ next.Is result := by
  cases isValue with
  | integer word =>
      obtain rfl := Option.some.inj step
      cases negative with
      | false => exact ⟨_, rfl, .integer word⟩
      | true =>
          have isWord : IsWord (-word.toInt) := inRange
          refine ⟨.int (Int64.ofInt (-word.toInt)), ?_, is_integer (to_int_of_is_word isWord)⟩
          rw [if_pos rfl, negate?, word_of_is_word isWord, Option.map_some]
  | float number =>
      obtain rfl := Option.some.inj step
      cases negative <;> exact ⟨_, rfl, .float _⟩
  | truth holds => exact absurd rfl (noTruth holds)
  | digits string => cases step

theorem value_of_call (isValue : meaning.Is value) (proper : meaning.IsProper) {number : Int}
    (step : meaning.toInteger = some number) (isWord : IsWord number) :
    ∃ result, toInt? value = some result ∧ Is (.integer number) result := by
  cases isValue with
  | integer word =>
      obtain rfl := Option.some.inj step
      exact ⟨.int word, rfl, .integer word⟩
  | float other =>
      rw [toInteger] at step
      split at step
      next finite =>
        obtain rfl := Option.some.inj step
        refine ⟨.int (clamp (Binary64.towardsZero other.exact)), ?_, ?_⟩
        · rw [toInt?, if_pos finite, other.truncate_exact]
        · rw [clamp_of_is_word isWord]
          exact is_integer (to_int_of_is_word isWord)
      next => cases step
  | truth holds =>
      obtain rfl := Option.some.inj step
      cases holds <;> exact ⟨_, rfl, is_integer rfl⟩
  | digits string =>
      obtain rfl := Option.some.inj step
      rw [to_int_digits proper, word_of_is_word isWord]
      exact ⟨_, rfl, is_integer (to_int_of_is_word isWord)⟩

end Meaning

def Operand.meaning : Operand → Meaning
  | integer token => .integer token.number
  | float token => .float token.value
  | truth holds => .truth holds
  | digits string => .digits string

namespace Expression

def meaning : Expression → Option Meaning
  | operand single => some single.meaning
  | signed negative _ inner => inner.meaning.bind (Meaning.signed negative)
  | round _ inner _ => inner.meaning
  | int _ _ inner _ => (inner.meaning.bind Meaning.toInteger).map .integer

/-- Whether `int` is called somewhere around a float whose integer part is no word. -/
def Overflows : Expression → Prop
  | operand _ => False
  | signed _ _ inner => inner.Overflows
  | round _ inner _ => inner.Overflows
  | int _ _ inner _ => inner.Overflows ∨ ∃ meaning ∈ inner.meaning, meaning.Overflows

variable {expression : Expression} {inside : Bool}

theorem proper_meaning (fits : expression.Fits inside) :
    ∀ meaning ∈ expression.meaning, meaning.IsProper := by
  induction expression generalizing inside with
  | operand single =>
      intro meaning isMeaning
      obtain rfl := Option.some.inj isMeaning
      cases single with
      | digits string => exact DigitString.IsProper.nonempty fits
      | integer | float | truth => trivial
  | signed negative gap inner ih =>
      intro meaning isMeaning
      obtain ⟨before, -, step⟩ := Option.bind_eq_some_iff.mp isMeaning
      cases before with
      | digits string => cases step
      | integer | float | truth =>
          obtain rfl := Option.some.inj step
          trivial
  | round opening inner closing ih => exact ih fits.2.1
  | int gap opening inner closing ih =>
      intro meaning isMeaning
      obtain ⟨number, -, rfl⟩ := Option.map_eq_some_iff.mp isMeaning
      trivial

theorem value_of_held {joined : Bool} {value : Option Value} {result : Value}
    (found : held joined value = some result) : value = some result := by
  unfold held at found
  split at found
  · cases found
  · exact found

/-- The value that an expression is read as is what it stands for, unless an integer was cut on the way. -/
theorem is_value (fits : expression.Fits inside) {value : Value} (found : expression.value? = some value) :
    ∃ meaning, expression.meaning = some meaning ∧
      (¬expression.Overflows → meaning.Is value) ∧ (expression.Overflows → meaning.IsCut value) := by
  induction expression generalizing inside value with
  | operand single =>
      refine ⟨single.meaning, rfl, fun _ => ?_, False.elim⟩
      cases single with
      | integer token =>
          obtain ⟨word, isWord, rfl⟩ := Option.map_eq_some_iff.mp found
          exact Meaning.is_integer (to_int_of_word isWord)
      | float token =>
          obtain rfl := Option.some.inj found
          exact .float token.value
      | truth holds =>
          obtain rfl := Option.some.inj found
          exact .truth holds
      | digits string =>
          obtain rfl := Option.some.inj found
          exact .digits string
  | signed negative gap inner ih =>
      obtain ⟨before, within, step⟩ := Option.bind_eq_some_iff.mp found
      obtain ⟨meaning, isMeaning, isValue, isCut⟩ := ih fits.2 within
      have means : (signed negative gap inner).meaning = meaning.signed negative := by
        rw [Expression.meaning, isMeaning, Option.bind_some]
      -- An integer that was cut stays closer to zero than the one it stands for, behind signs and in calls.
      by_cases overflows : inner.Overflows
      · obtain ⟨next, isNext, cut⟩ := Meaning.signed_cut (isCut overflows) step
        exact ⟨next, means.trans isNext, fun fits => absurd overflows fits, fun _ => cut⟩
      · obtain ⟨next, isNext, same⟩ := Meaning.signed_is (isValue overflows) step
        exact ⟨next, means.trans isNext, fun _ => same, fun cut => absurd cut overflows⟩
  | round opening inner closing ih => exact ih fits.2.1 (value_of_held found)
  | int gap opening inner closing ih =>
      obtain ⟨before, within, step⟩ := Option.bind_eq_some_iff.mp found
      have innerFits := fits.2.2.1
      obtain ⟨meaning, isMeaning, isValue, isCut⟩ := ih innerFits (value_of_held within)
      have means {number : Int} (isNumber : meaning.toInteger = some number) :
          (int gap opening inner closing).meaning = some (.integer number) := by
        rw [Expression.meaning, isMeaning, Option.bind_some, isNumber, Option.map_some]
      by_cases overflows : inner.Overflows
      · obtain ⟨number, isNumber, cut⟩ := Meaning.to_integer_cut (isCut overflows) step
        exact ⟨.integer number, means isNumber, fun fits => absurd (.inl overflows) fits, fun _ => cut⟩
      · obtain ⟨number, isNumber, same, cut⟩ :=
          Meaning.to_integer_is (isValue overflows) (proper_meaning innerFits meaning isMeaning) step
        refine ⟨.integer number, means isNumber, ?_, ?_⟩
        · exact fun fits => same fun beyond => fits (.inr ⟨meaning, isMeaning, beyond⟩)
        · rintro (earlier | ⟨other, isOther, beyond⟩)
          · exact absurd earlier overflows
          · obtain rfl := Option.some.inj (isMeaning.symm.trans isOther)
            exact cut beyond

/-! ## Expressions that have a value -/

/-- Whether no joined line counts at an edge inside brackets, no sign stands in front of a truth value, and
every integer on the way is a word. -/
def IsPlain : Expression → Prop
  | operand single => single.meaning.InRange
  | signed negative _ inner =>
      inner.IsPlain ∧ (∀ holds, inner.meaning ≠ some (.truth holds)) ∧
        ∀ meaning ∈ inner.meaning.bind (Meaning.signed negative), meaning.InRange
  | round opening inner closing =>
      inner.IsPlain ∧ joinedInside opening inner closing = false
  | int _ opening inner closing =>
      inner.IsPlain ∧ joinedInside opening inner closing = false ∧
        ∀ number ∈ inner.meaning.bind Meaning.toInteger, IsWord number

theorem value_of_plain (fits : expression.Fits inside) (plain : expression.IsPlain) {meaning : Meaning}
    (means : expression.meaning = some meaning) :
    ∃ value, expression.value? = some value ∧ meaning.Is value := by
  induction expression generalizing inside meaning with
  | operand single =>
      obtain rfl := Option.some.inj means
      cases single with
      | integer token =>
          refine ⟨.int (Int64.ofInt token.number), ?_, Meaning.is_integer (to_int_of_is_word plain)⟩
          rw [value?, Operand.value?, word_of_is_word plain, Option.map_some]
      | float token => exact ⟨_, rfl, .float token.value⟩
      | truth holds => exact ⟨_, rfl, .truth holds⟩
      | digits string => exact ⟨_, rfl, .digits string⟩
  | signed negative gap inner ih =>
      obtain ⟨innerPlain, noTruth, inRange⟩ := plain
      obtain ⟨before, isMeaning, step⟩ := Option.bind_eq_some_iff.mp means
      obtain ⟨value, found, isValue⟩ := ih fits.2 innerPlain isMeaning
      rw [value?, found, Option.bind_some]
      apply Meaning.value_of_signed isValue step
      · rintro holds rfl
        exact noTruth holds isMeaning
      · exact inRange meaning means
  | round opening inner closing ih =>
      rw [value?, held, plain.2]
      exact ih fits.2.1 plain.1 means
  | int gap opening inner closing ih =>
      obtain ⟨innerPlain, unjoined, inRange⟩ := plain
      obtain ⟨number, isNumber, rfl⟩ := Option.map_eq_some_iff.mp means
      obtain ⟨before, isMeaning, step⟩ := Option.bind_eq_some_iff.mp isNumber
      obtain ⟨value, found, isValue⟩ := ih fits.2.2.1 innerPlain isMeaning
      rw [value?, held, unjoined, found]
      exact Meaning.value_of_call isValue (proper_meaning fits.2.2.1 before isMeaning) step
        (inRange number isNumber)

end Expression

/-! ## Texts -/

/-- What a text of an expression that stands for an integer is decoded as. -/
theorem decode_expression {expression : Expression} (fits : expression.Fits false) {before after : List Char}
    (blankBefore : ∀ character ∈ before, isBlank character = true)
    (blankAfter : ∀ character ∈ after, isBlank character = true) {number : Int}
    (means : expression.meaning = some (.integer number)) :
    (∀ value, decode (before ++ (expression.text ++ after)) = .decoded value →
      ∃ word, value = .int word ∧ (word.toInt = number ↔ ¬expression.Overflows)) ∧
    (¬expression.Overflows → ¬IsWord number →
      decode (before ++ (expression.text ++ after)) =
        .verbatim (String.ofList (Compact.text (before ++ (expression.text ++ after))))) ∧
    (expression.IsPlain → ∃ word,
      decode (before ++ (expression.text ++ after)) = .decoded (.int word) ∧ word.toInt = number) := by
  have read := Expression.read_expression fits blankBefore blankAfter
  have exactOrCut {value : Value} (found : expression.value? = some value) :
      ∃ word, value = .int word ∧ (¬expression.Overflows → word.toInt = number) ∧
        (expression.Overflows → word.toInt.natAbs < number.natAbs) := by
    obtain ⟨meaning, isMeaning, same, cut⟩ := Expression.is_value fits found
    obtain rfl := Option.some.inj (means.symm.trans isMeaning)
    by_cases overflows : expression.Overflows
    · cases cut overflows with
      | integer closer => exact ⟨_, rfl, fun fits => absurd overflows fits, fun _ => closer⟩
    · cases same overflows with
      | integer word => exact ⟨word, rfl, fun _ => rfl, fun cut => absurd cut overflows⟩
  constructor
  · intro value decoded
    cases found : expression.value? with
    | none => simp [decode, read, found] at decoded
    | some other =>
        obtain rfl : other = value := by simpa [decode, read, found] using decoded
        obtain ⟨word, rfl, same, cut⟩ := exactOrCut found
        -- A word that is closer to zero than the integer is not the integer.
        refine ⟨word, rfl, fun equal overflows => ?_, same⟩
        have closer := cut overflows
        rw [equal] at closer
        exact Nat.lt_irrefl _ closer
  constructor
  · intro fitting beyond
    cases found : expression.value? with
    | none => rw [decode, read, found]
    | some other =>
        obtain ⟨word, rfl, same, -⟩ := exactOrCut found
        exact absurd (same fitting ▸ is_word_to_int word) beyond
  · intro plain
    obtain ⟨value, found, isValue⟩ := Expression.value_of_plain fits plain means
    cases isValue with
    | integer word => exact ⟨word, by rw [decode, read, found], rfl⟩

end Source

namespace Docstring

open TaskCab.Text Integer

theorem number_of_digits (sign : Option Bool) {string : Source.DigitString} (nonempty : string.digits ≠ []) :
    number? (signText sign ++ string.body) =
      some (if IsWord (signed sign string.number) then .int (Int64.ofInt (signed sign string.number))
        else .float (Decimal.toBinary64 ⟨sign = some true, string.number, 0⟩)) := by
  have filled : string.body ≠ [] := by simpa [Source.DigitString.body] using nonempty
  have integer : readWord? (signText sign ++ string.body) = word? (signed sign string.number) := by
    rw [readWord?, read_behind_sign filled string.body_digits string.read_body, Option.bind_some]
  have unsigned := Decimal.read_unsigned_digits filled string.body_digits string.read_body
  have float : float? (signText sign ++ string.body) =
      some (Decimal.toBinary64 ⟨sign = some true, string.number, 0⟩) := by
    cases sign with
    | none =>
        obtain ⟨first, rest, whole⟩ := List.exists_cons_of_ne_nil filled
        have isDigit : first.isDigit = true := string.body_digits first (whole ▸ .head _)
        rw [signText, List.nil_append, float?, whole, Decimal.read_digit isDigit, ← whole, unsigned]
        rfl
    | some negative =>
        cases negative with
        | false => exact congrArg (Option.map Decimal.toBinary64) (unsigned false)
        | true => exact congrArg (Option.map Decimal.toBinary64) (unsigned true)
  rw [number?, integer, float]
  by_cases isWord : IsWord (signed sign string.number)
  · rw [word_of_is_word isWord, if_pos isWord]
    rfl
  · rw [word_none isWord, if_neg isWord]
    rfl

/-- Digits behind an optional sign are the integer that they are, or the nearest float if that is no word. -/
theorem read_digits (sign : Option Bool) {string : Source.DigitString} (nonempty : string.digits ≠ []) :
    readDefault (signText sign ++ string.body) =
      if IsWord (signed sign string.number) then .int (Int64.ofInt (signed sign string.number))
      else .float (Decimal.toBinary64 ⟨sign = some true, string.number, 0⟩) := by
  have filled : string.body ≠ [] := by simpa [Source.DigitString.body] using nonempty
  have characters : ∀ character ∈ signText sign ++ string.body,
      IsGraphic character ∧ character.toNat < 0x41 := by
    intro character member
    rcases List.mem_append.mp member with inSign | inBody
    · cases sign with
      | none => simp [signText] at inSign
      | some negative => cases negative <;> exact List.mem_singleton.mp inSign ▸ by decide
    · have isDigit := string.body_digits character inBody
      refine ⟨string.body_graphic character inBody, ?_⟩
      exact Nat.lt_of_le_of_lt (code_of_digit isDigit).2 (by decide)
  have some : signText sign ++ string.body ≠ [] := List.append_ne_nil_of_right_ne_nil _ filled
  have trimmed : trim (signText sign ++ string.body) = signText sign ++ string.body :=
    trim_of_framed (framed_of_graphic some fun character member => (characters character member).1)
  obtain ⟨first, rest, whole⟩ := List.exists_cons_of_ne_nil some
  have found := number_of_digits sign nonempty
  rw [whole] at found characters
  rw [read_scalar (characters first (.head _)).2 (trimmed.trans whole), found, Option.getD_some]

end Docstring

namespace Source

open TaskCab.Text Literal Integer

/-- An expression that stands for an integer is decoded as exactly this integer or keeps its text, unless
`int` is called around a float beyond the range of words: then the integer is not the one that is decoded.
Digits in a docstring are the integer that they are where it is a word, and are rounded to a float
otherwise. -/
theorem decoded_integer {expression : Expression} (fits : expression.Fits false) {before after : List Char}
    (blankBefore : ∀ character ∈ before, isBlank character = true)
    (blankAfter : ∀ character ∈ after, isBlank character = true) {number : Int}
    (means : expression.meaning = some (.integer number)) (sign : Option Bool) {string : DigitString}
    (nonempty : string.digits ≠ []) :
    (∀ value, decode (before ++ (expression.text ++ after)) = .decoded value →
      ∃ word, value = .int word ∧ (word.toInt = number ↔ ¬expression.Overflows)) ∧
    (¬expression.Overflows → ¬IsWord number →
      decode (before ++ (expression.text ++ after)) =
        .verbatim (String.ofList (Compact.text (before ++ (expression.text ++ after))))) ∧
    (expression.IsPlain → ∃ word,
      decode (before ++ (expression.text ++ after)) = .decoded (.int word) ∧ word.toInt = number) ∧
    Docstring.readDefault (signText sign ++ string.body) =
      if IsWord (signed sign string.number) then .int (Int64.ofInt (signed sign string.number))
      else .float (Decimal.toBinary64 ⟨sign = some true, string.number, 0⟩) := by
  obtain ⟨decoded, left, plain⟩ := decode_expression fits blankBefore blankAfter means
  exact ⟨decoded, left, plain, Docstring.read_digits sign nonempty⟩

def largeToken : FloatToken where
  whole := [⟨1, false, false⟩]
  fraction := none
  exponent := some ⟨false, none, [⟨1, false, false⟩, ⟨9, false, false⟩]⟩

def largeCall : Expression := .int [] [.blank ' '] (.operand (.float largeToken)) []

theorem large_token_proper : largeToken.IsProper := by
  constructor <;> simp [largeToken, WrittenDigit.IsPart]

theorem large_token_integer : Binary64.towardsZero largeToken.value.exact = 10 ^ 19 := by
  rw [← Binary64.truncate_exact]
  decide +kernel

def largeDigits : DigitString :=
  ⟨none, '\'', false, [9, 2, 2, 3, 3, 7, 2, 0, 3, 6, 8, 5, 4, 7, 7, 5, 8, 0, 9]⟩

/-- The call is decoded as the greatest word, which is not the integer that it stands for. -/
theorem decoded_integer_of_large_call :
    largeCall.Overflows ∧ decode "int( 1e19)".toList = .decoded (.int Int64.maxValue) ∧
      (∀ value, decode "int( 1e19)".toList = .decoded value →
        ∃ word, value = .int word ∧ word.toInt ≠ 10 ^ 19) ∧
      Docstring.readDefault "-9223372036854775809".toList =
        .float (Decimal.toBinary64 ⟨true, 9223372036854775809, 0⟩) := by
  have fits : largeCall.Fits false := by
    refine ⟨by simp, ?_, large_token_proper, by simp⟩
    simp [Space.Fits]
  have finite : largeToken.value.isFinite = true := by decide +kernel
  have cut : clamp largeToken.value.truncate = Int64.maxValue := by decide +kernel
  have means : largeCall.meaning = some (.integer (10 ^ 19)) := by
    simp [largeCall, Expression.meaning, Operand.meaning, Meaning.toInteger, finite, large_token_integer]
  have overflows : largeCall.Overflows :=
    .inr ⟨_, rfl, largeToken.value, rfl, by rw [large_token_integer]; decide⟩
  have read : Literal.read? "int( 1e19)".toList = largeCall.value? :=
    @Expression.read_expression largeCall fits [] [] (by simp) (by simp)
  obtain ⟨decoded, -, -, rounded⟩ := @decoded_integer largeCall fits [] [] (by simp) (by simp) (10 ^ 19) means
    (some true) largeDigits (by simp [largeDigits])
  refine ⟨overflows, ?_, fun value found => ?_, rounded⟩
  · rw [decode, read]
    simp [largeCall, Expression.value?, held, Expression.joinedInside, joinsBefore, Expression.firstKind,
      Operand.kind, Operand.value?, Space.joins, toInt?, finite, cut]
  · obtain ⟨word, same, exact⟩ := decoded value found
    exact ⟨word, same, fun equal => exact.mp equal overflows⟩

end Source

end TaskCab
