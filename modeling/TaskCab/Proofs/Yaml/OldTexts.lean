import Mathlib.Tactic.IntervalCases
import TaskCab.Proofs.Text.Runs
import TaskCab.Proofs.Yaml.OldReader
import TaskCab.Proofs.Yaml.ScalarForm

/-!
# Plain texts in the older version

A text that any pattern of the older version matches is a keyword, a number or begins with a date, and such a
text is not written plain. So readers of the older version take every text that is written plain for a text.
-/

namespace TaskCab.Yaml.OldReader

open TaskCab.Text Pattern

/-! ## Numbers -/

def IsSign (text : List Char) : Prop := text = [] ∨ text = ['+'] ∨ text = ['-']

theorem sign_iff (text : List Char) : sign.rmatch text = true ↔ IsSign text := by
  rw [sign, optional_iff, one_of_iff]
  simp [IsSign, or_comm]

def Unsigned (text : List Char) : Prop := ∀ character ∈ text.head?, character ≠ '+' ∧ character ≠ '-'

theorem without_sign {front rest : List Char} (isSign : IsSign front) (unsigned : Unsigned rest) :
    (afterStart? ['-'] (front ++ rest) <|> afterStart? ['+'] (front ++ rest)).getD (front ++ rest) =
      rest := by
  rcases isSign with rfl | rfl | rfl
  · cases rest with
    | nil => rfl
    | cons first rest =>
        obtain ⟨notPlus, notMinus⟩ := unsigned first rfl
        simp [afterStart?, notPlus.symm, notMinus.symm]
  · simp [afterStart?]
  · simp [afterStart?]

theorem old_number_signed {front rest : List Char} (isSign : IsSign front) (unsigned : Unsigned rest) :
    isOldNumber (front ++ rest) = isOldNumber rest := by
  have bare := @without_sign [] rest (.inl rfl) unsigned
  rw [List.nil_append] at bare
  unfold isOldNumber
  rw [without_sign isSign unsigned, bare]

theorem old_exponent {text : List Char} (matched : exponent.rmatch text = true) :
    isOldExponent text = true ∧ Stops isDigitOrUnderscore text := by
  rw [exponent, optional_iff, RegularExpression.mul_rmatch_iff] at matched
  rcases matched with ⟨start, digits, rfl, isStart, isDigits⟩ | rfl
  · rw [RegularExpression.mul_rmatch_iff] at isStart
    obtain ⟨letter, mark, rfl, isLetter, isMark⟩ := isStart
    obtain ⟨letter, knownLetter, rfl⟩ := (one_of_iff _ _).mp isLetter
    obtain ⟨mark, knownMark, rfl⟩ := (one_of_iff _ _).mp isMark
    obtain ⟨nonempty, known⟩ := (repeated_one_of_iff _ _).mp isDigits
    have letters : ∀ c ∈ "eE".toList, c.toLower = 'e' ∧ isDigitOrUnderscore c = false := by decide
    have signed : IsSign [mark] := by
      have marks : ∀ c ∈ "+-".toList, c = '+' ∨ c = '-' := by decide
      rcases marks mark knownMark with rfl | rfl
      · exact .inr (.inl rfl)
      · exact .inr (.inr rfl)
    have decimal : ∀ c ∈ "0123456789".toList, c.isDigit = true ∧ c ≠ '+' ∧ c ≠ '-' := by decide
    have unsigned : Unsigned digits := by
      intro character atHead
      exact (decimal character (known character (List.mem_of_mem_head? atHead))).2
    constructor
    · simp only [List.cons_append, List.nil_append, isOldExponent]
      have bare := without_sign signed unsigned
      rw [List.cons_append, List.nil_append] at bare
      rw [bare, (letters letter knownLetter).1]
      simp only [decide_true, Bool.true_and, Bool.and_eq_true, Bool.not_eq_true',
        List.isEmpty_eq_false_iff, List.all_eq_true]
      exact ⟨nonempty, fun c member => (decimal c (known c member)).1⟩
    · simp [(letters letter knownLetter).2]
  · exact ⟨rfl, stops_nil⟩

theorem digits_iff (text : List Char) :
    digits.rmatch text = true ↔ ∀ character ∈ text, character ∈ "0123456789_".toList :=
  star_one_of_iff _ _

theorem digits_belong {text : List Char} (matched : digits.rmatch text = true) :
    ∀ character ∈ text, isDigitOrUnderscore character = true := by
  have known : ∀ c ∈ "0123456789_".toList, isDigitOrUnderscore c = true := by decide
  intro character member
  exact known character ((digits_iff text).mp matched character member)

/-- What may come behind the digits and places of a number: nothing, or a point, digits and an exponent. -/
def IsFraction (text : List Char) : Prop :=
  text = [] ∨ ∃ run rest, text = '.' :: (run ++ rest) ∧ digits.rmatch run = true ∧
    exponent.rmatch rest = true

theorem old_fraction {text : List Char} (isFraction : IsFraction text) :
    isOldFraction text = true := by
  rcases isFraction with rfl | ⟨run, rest, rfl, isRun, isExponent⟩
  · rfl
  · obtain ⟨isOld, stops⟩ := old_exponent isExponent
    rw [isOldFraction, drop_while_run (digits_belong isRun) stops]
    exact isOld

def IsPlace (text : List Char) : Prop :=
  ∃ digit, digit.isDigit = true ∧
    (text = [':', digit] ∨ ∃ tens, tens.isDigit = true ∧ tens ≤ '5' ∧ text = [':', tens, digit])

theorem places_parts {text : List Char} (matched : places.rmatch text = true) :
    ∃ pieces : List (List Char), text = pieces.flatten ∧ ∀ piece ∈ pieces, IsPlace piece := by
  have decimal : ∀ c ∈ "0123456789".toList, c.isDigit = true := by decide
  have tens : ∀ c ∈ "012345".toList, c.isDigit = true ∧ c ≤ '5' := by decide
  have isPlace {piece : List Char}
      (isPiece : (word ":" * optional (oneOf "012345") * digit).rmatch piece = true) :
      IsPlace piece := by
    rw [RegularExpression.mul_rmatch_iff] at isPiece
    obtain ⟨start, last, rfl, isStart, isLast⟩ := isPiece
    rw [RegularExpression.mul_rmatch_iff] at isStart
    obtain ⟨colon, front, rfl, isColon, isFront⟩ := isStart
    obtain ⟨last, known, rfl⟩ := (one_of_iff _ _).mp isLast
    obtain rfl := (word_iff _ _).mp isColon
    refine ⟨last, decimal last known, ?_⟩
    rcases (optional_iff _ _).mp isFront with isTens | rfl
    · obtain ⟨first, knownFirst, rfl⟩ := (one_of_iff _ _).mp isTens
      exact .inr ⟨first, (tens first knownFirst).1, (tens first knownFirst).2, rfl⟩
    · exact .inl rfl
  rw [places, repeated, RegularExpression.mul_rmatch_iff] at matched
  obtain ⟨front, back, rfl, isFront, isBack⟩ := matched
  obtain ⟨pieces, rfl, each⟩ := (RegularExpression.star_rmatch_iff _ _).mp isBack
  refine ⟨front :: pieces, rfl, List.forall_mem_cons.mpr ⟨isPlace isFront, ?_⟩⟩
  intro piece member
  exact isPlace (each piece member).2

theorem fraction_stops {text : List Char} (isFraction : IsFraction text) :
    Stops isDigitOrUnderscore text ∧ Stops Char.isDigit text ∧ text.head? ≠ some ':' := by
  rcases isFraction with rfl | ⟨run, rest, rfl, -⟩
  · simp
  · exact ⟨stops_cons.mpr rfl, stops_cons.mpr rfl, by simp⟩

theorem places_stop {pieces : List (List Char)} (each : ∀ piece ∈ pieces, IsPlace piece)
    {belongs : Char → Bool} (noColon : belongs ':' = false) {fraction : List Char}
    (stops : Stops belongs fraction) : Stops belongs (pieces.flatten ++ fraction) := by
  cases pieces with
  | nil => exact stops
  | cons next others =>
      obtain ⟨digit, -, rfl | ⟨tens, -, -, rfl⟩⟩ := each next (.head _)
      · exact stops_cons.mpr noColon
      · exact stops_cons.mpr noColon

theorem length_places_le {pieces : List (List Char)} (each : ∀ piece ∈ pieces, IsPlace piece) :
    pieces.length ≤ pieces.flatten.length := by
  induction pieces with
  | nil => simp
  | cons piece rest ih =>
      obtain ⟨isPiece, later⟩ := List.forall_mem_cons.mp each
      have shorter := ih later
      obtain ⟨digit, -, rfl | ⟨tens, -, -, rfl⟩⟩ := isPiece <;>
        simp only [List.length_cons, List.flatten_cons, List.length_append] <;> omega

/-- Places are read one after the other, and a fraction behind them. -/
theorem sexagesimal_places {pieces : List (List Char)} (each : ∀ piece ∈ pieces, IsPlace piece)
    {fraction : List Char} (isFraction : IsFraction fraction) {fuel : Nat}
    (enough : pieces.length < fuel) : isSexagesimal fuel (pieces.flatten ++ fraction) = true := by
  induction pieces generalizing fuel with
  | nil =>
      obtain ⟨-, -, noColon⟩ := fraction_stops isFraction
      obtain ⟨fuel, rfl⟩ : ∃ more, fuel = more + 1 := ⟨fuel - 1, by rw [List.length_nil] at enough; omega⟩
      rw [List.flatten_nil, List.nil_append, isSexagesimal.eq_def]
      split
      · contradiction
      · simp at noColon
      · exact old_fraction isFraction
  | cons piece rest ih =>
      obtain ⟨isPiece, later⟩ := List.forall_mem_cons.mp each
      obtain ⟨fuel, rfl⟩ : ∃ more, fuel = more + 1 := ⟨fuel - 1, by rw [List.length_cons] at enough; omega⟩
      have shorter : rest.length < fuel := by rw [List.length_cons] at enough; omega
      have more := ih later shorter
      have stops := places_stop later (rfl : Char.isDigit ':' = false) (fraction_stops isFraction).2.1
      obtain ⟨digit, isDigit, rfl | ⟨tens, isTens, small, rfl⟩⟩ := isPiece
      · have run := @take_while_run Char.isDigit [digit] _ (by simp [isDigit]) stops
        rw [List.flatten_cons, List.append_assoc]
        change isSexagesimal (fuel + 1) (':' :: ([digit] ++ (rest.flatten ++ fraction))) = true
        rw [isSexagesimal, run]
        simpa using more
      · have run := @take_while_run Char.isDigit [tens, digit] _ (by simp [isDigit, isTens]) stops
        rw [List.flatten_cons, List.append_assoc]
        change isSexagesimal (fuel + 1) (':' :: ([tens, digit] ++ (rest.flatten ++ fraction))) = true
        rw [isSexagesimal, run]
        simpa [small] using more

theorem old_number_of_digits {front run fraction : List Char} {first : Char}
    {pieces : List (List Char)} (isSign : IsSign front) (isDigit : first.isDigit = true)
    (isRun : digits.rmatch run = true) (each : ∀ piece ∈ pieces, IsPlace piece)
    (isFraction : IsFraction fraction) :
    isOldNumber (front ++ first :: (run ++ (pieces.flatten ++ fraction))) = true := by
  have unsigned : Unsigned (first :: (run ++ (pieces.flatten ++ fraction))) := by
    intro character atHead
    obtain rfl : first = character := by simpa using atHead
    constructor
    · rintro rfl
      simp at isDigit
    · rintro rfl
      simp at isDigit
  have stops := places_stop each (rfl : isDigitOrUnderscore ':' = false) (fraction_stops isFraction).1
  have enough : pieces.length < (first :: (run ++ (pieces.flatten ++ fraction))).length + 1 := by
    have short := length_places_le each
    simp only [List.length_cons, List.length_append]
    omega
  have belong : ∀ c ∈ first :: run, isDigitOrUnderscore c = true := by
    refine List.forall_mem_cons.mpr ⟨?_, digits_belong isRun⟩
    simp [isDigitOrUnderscore, isDigit]
  have dropped := drop_while_run belong stops
  rw [List.cons_append] at dropped
  rw [old_number_signed isSign unsigned]
  have bare := @without_sign [] _ (.inl rfl) unsigned
  rw [List.nil_append] at bare
  unfold isOldNumber
  rw [bare]
  simp only [Bool.or_eq_true]
  right
  split
  next same => simp [(List.cons.inj same).1] at isDigit
  next same =>
    obtain ⟨rfl, -⟩ := List.cons.inj same
    rw [dropped, isDigit, sexagesimal_places each isFraction enough]
    rfl
  next same => simp at same

theorem old_number_of_point {front run rest : List Char} (isSign : IsSign front)
    (isRun : digits.rmatch run = true) (isExponent : exponent.rmatch rest = true) :
    isOldNumber (front ++ '.' :: (run ++ rest)) = true := by
  have unsigned : Unsigned ('.' :: (run ++ rest)) := by simp [Unsigned]
  have bare := @without_sign [] _ (.inl rfl) unsigned
  rw [List.nil_append] at bare
  rw [old_number_signed isSign unsigned]
  unfold isOldNumber
  rw [bare]
  simp only [Bool.or_eq_true]
  exact .inr (old_fraction (.inr ⟨run, rest, rfl, isRun, isExponent⟩))

theorem exponent_nil : exponent.rmatch [] = true := by
  rw [exponent, optional_iff]
  exact .inr rfl

theorem mem_decimal {character : Char} (isDigit : character.isDigit = true) :
    character ∈ "0123456789".toList := by
  obtain ⟨lower, upper⟩ := Text.code_of_digit isDigit
  rw [← Char.ofNat_toNat character]
  generalize character.toNat = code at *
  interval_cases code <;> decide

theorem digit_iff (text : List Char) :
    digit.rmatch text = true ↔ ∃ character, character.isDigit = true ∧ text = [character] := by
  rw [digit, one_of_iff]
  constructor
  · rintro ⟨character, known, rfl⟩
    have decimal : ∀ c ∈ "0123456789".toList, c.isDigit = true := by decide
    exact ⟨character, decimal character known, rfl⟩
  · rintro ⟨character, isDigit, rfl⟩
    exact ⟨character, mem_decimal isDigit, rfl⟩

theorem old_number_of_float {text : List Char} (matched : floatPattern.rmatch text = true) :
    isOldNumber text = true := by
  simp only [floatPattern, RegularExpression.add_rmatch_iff, RegularExpression.mul_rmatch_iff,
    word_iff, one_word_iff, digit_iff, sign_iff] at matched
  rcases matched with (((number | point) | base) | infinity) | nan
  · obtain ⟨_, rest, rfl, ⟨_, run, rfl, ⟨_, _, rfl, ⟨_, whole, rfl, ⟨front, _, rfl, isSign, first, isDigit,
      rfl⟩, isWhole⟩, rfl⟩, isRun⟩, isExponent⟩ := number
    have old := old_number_of_digits isSign isDigit isWhole (List.forall_mem_nil IsPlace)
      (.inr ⟨run, rest, rfl, isRun, isExponent⟩)
    simpa using old
  · obtain ⟨_, rest, rfl, ⟨_, run, rfl, ⟨_, _, rfl, rfl, first, isDigit, rfl⟩, isRun⟩, isExponent⟩ := point
    have old := @old_number_of_point [] (first :: run) rest (.inl rfl) (by
      rw [digits_iff] at isRun ⊢
      have inDigits : ∀ c ∈ "0123456789".toList, c ∈ "0123456789_".toList := by decide
      exact List.forall_mem_cons.mpr ⟨inDigits first (mem_decimal isDigit), isRun⟩) isExponent
    simpa using old
  · obtain ⟨_, run, rfl, ⟨_, _, rfl, ⟨_, places, rfl, ⟨_, whole, rfl, ⟨front, _, rfl, isSign, first, isDigit,
      rfl⟩, isWhole⟩, isPlaces⟩, rfl⟩, isRun⟩ := base
    obtain ⟨pieces, rfl, each⟩ := places_parts isPlaces
    have old := old_number_of_digits isSign isDigit isWhole each
      (.inr ⟨run, [], rfl, isRun, exponent_nil⟩)
    simpa using old
  · obtain ⟨_, _, rfl, ⟨front, _, rfl, isSign, rfl⟩, word, known, rfl⟩ := infinity
    have words : ∀ word ∈ ["inf", "Inf", "INF"], isOldNumber ('.' :: word.toList) = true := by decide
    have old := words word known
    have unsigned : Unsigned ('.' :: word.toList) := by simp [Unsigned]
    rw [List.append_assoc]
    exact (old_number_signed isSign unsigned).trans old
  · obtain ⟨_, _, rfl, rfl, word, known, rfl⟩ := nan
    have words : ∀ word ∈ ["nan", "NaN", "NAN"], isOldNumber (".".toList ++ word.toList) = true := by
      decide
    exact words word known

theorem old_marked {mark : Char} {radix : Nat} {characters : String} {run : List Char}
    (lower : mark.toLower = mark) (nonempty : run ≠ [])
    (known : ∀ c ∈ run, c ∈ characters.toList)
    (belong : ∀ c ∈ characters.toList, c = '_' ∨ (Integer.digitValue? radix c).isSome = true) :
    isOldMarked mark radix ('0' :: mark :: run) = true := by
  have filled : run.isEmpty = false := List.isEmpty_eq_false_iff.mpr nonempty
  have each : run.all (fun c => c = '_' || (Integer.digitValue? radix c).isSome) = true := by
    rw [List.all_eq_true]
    intro c member
    simpa using belong c (known c member)
  simp [isOldMarked, lower, filled, each]

theorem old_number_of_int {text : List Char} (matched : intPattern.rmatch text = true) :
    isOldNumber text = true := by
  have bound {front run : List Char} {first : Char} (isSign : IsSign front) (isDigit : first.isDigit = true)
      (isRun : ∀ c ∈ run, c ∈ "0123456789_".toList) : isOldNumber (front ++ first :: run) = true := by
    have old := old_number_of_digits isSign isDigit ((digits_iff run).mpr isRun)
      (List.forall_mem_nil IsPlace) (.inl rfl)
    simpa using old
  have marked {front run : List Char} {mark : Char} {radix : Nat} (isSign : IsSign front)
      (kinds : (mark, radix) ∈ [('b', 2), ('x', 16)])
      (isMarked : isOldMarked mark radix ('0' :: mark :: run) = true) :
      isOldNumber (front ++ '0' :: mark :: run) = true := by
    have unsigned : Unsigned ('0' :: mark :: run) := by simp [Unsigned]
    have bare := @without_sign [] _ (.inl rfl) unsigned
    rw [List.nil_append] at bare
    rw [old_number_signed isSign unsigned]
    unfold isOldNumber
    rw [bare]
    simp only [List.mem_cons, Prod.mk.injEq, List.not_mem_nil, or_false] at kinds
    rcases kinds with ⟨rfl, rfl⟩ | ⟨rfl, rfl⟩ <;> simp [isMarked]
  simp only [intPattern, RegularExpression.add_rmatch_iff, RegularExpression.mul_rmatch_iff,
    word_iff, sign_iff, repeated_one_of_iff, one_of_iff] at matched
  rcases matched with (((binary | octal) | decimal) | hexadecimal) | base
  · obtain ⟨_, run, rfl, ⟨front, _, rfl, isSign, rfl⟩, nonempty, known⟩ := binary
    have old := marked isSign (.head _) (old_marked rfl nonempty known (by decide))
    simpa using old
  · obtain ⟨_, run, rfl, ⟨front, _, rfl, isSign, rfl⟩, nonempty, known⟩ := octal
    have inDigits : ∀ c ∈ "01234567_".toList, c ∈ "0123456789_".toList := by decide
    have old := bound isSign (by decide : '0'.isDigit = true) fun c member => inDigits c (known c member)
    simpa using old
  · obtain ⟨front, _, rfl, isSign, rfl | ⟨_, run, rfl, ⟨first, known, rfl⟩, isRun⟩⟩ := decimal
    · exact bound isSign (by decide : '0'.isDigit = true) (by simp)
    · have isDigits : ∀ c ∈ "123456789".toList, c.isDigit = true := by decide
      exact bound isSign (isDigits first known) ((digits_iff run).mp isRun)
  · obtain ⟨_, run, rfl, ⟨front, _, rfl, isSign, rfl⟩, nonempty, known⟩ := hexadecimal
    have old := marked isSign (.tail _ (.head _)) (old_marked rfl nonempty known (by decide))
    simpa using old
  · obtain ⟨_, places, rfl, ⟨_, run, rfl, ⟨front, _, rfl, isSign, first, known, rfl⟩, isRun⟩,
      isPlaces⟩ := base
    obtain ⟨pieces, rfl, each⟩ := places_parts isPlaces
    have isDigits : ∀ c ∈ "123456789".toList, c.isDigit = true := by decide
    have old := old_number_of_digits isSign (isDigits first known) isRun each (.inl rfl)
    simpa using old

/-! ## Dates -/

theorem starts_with_date {a b c d month day : Char} {second rest : List Char}
    (years : a.isDigit = true ∧ b.isDigit = true ∧ c.isDigit = true ∧ d.isDigit = true)
    (isMonth : month.isDigit = true)
    (isSecond : (∃ digit, digit.isDigit = true ∧ second = [digit]) ∨ second = [])
    (isDay : day.isDigit = true) :
    startsWithDate (a :: b :: c :: d :: '-' :: month :: (second ++ '-' :: day :: rest)) = true := by
  obtain ⟨isA, isB, isC, isD⟩ := years
  rcases isSecond with ⟨digit, isDigit, rfl⟩ | rfl
  · simp [startsWithDate, isA, isB, isC, isD, isMonth, isDay, isDigit]
  · simp [startsWithDate, isA, isB, isC, isD, isMonth, isDay]

theorem date_of_year {text : List Char} (matched : year.rmatch text = true) (back : List Char)
    {month day : Char} {second : List Char} (isMonth : month.isDigit = true)
    (isSecond : (∃ digit, digit.isDigit = true ∧ second = [digit]) ∨ second = [])
    (isDay : day.isDigit = true) :
    startsWithDate (text ++ '-' :: month :: (second ++ '-' :: day :: back)) = true := by
  simp only [year, RegularExpression.mul_rmatch_iff, digit_iff] at matched
  obtain ⟨_, _, rfl, ⟨_, _, rfl, ⟨_, _, rfl, ⟨a, isA, rfl⟩, b, isB, rfl⟩, c, isC, rfl⟩, d, isD,
    rfl⟩ := matched
  exact starts_with_date ⟨isA, isB, isC, isD⟩ isMonth isSecond isDay

theorem date_of_timestamp {text : List Char} (matched : timestampPattern.rmatch text = true) :
    startsWithDate text = true := by
  rw [timestampPattern, RegularExpression.add_rmatch_iff] at matched
  rcases matched with day | time
  · simp only [RegularExpression.mul_rmatch_iff, word_iff, digit_iff] at day
    obtain ⟨_, _, rfl, ⟨_, _, rfl, ⟨_, _, rfl, ⟨_, _, rfl, ⟨_, _, rfl, ⟨front, _, rfl, isYear, rfl⟩,
      month, isMonth, rfl⟩, second, isSecond, rfl⟩, rfl⟩, day, isDay, rfl⟩, last, -, rfl⟩ := day
    have date := date_of_year isYear [last] isMonth (.inl ⟨second, isSecond, rfl⟩) isDay
    simpa using date
  · simp only [shortNumber, RegularExpression.mul_rmatch_iff, word_iff, digit_iff, optional_iff] at time
    obtain ⟨_, rest, rfl, ⟨_, _, rfl, ⟨_, _, rfl, ⟨_, _, rfl, ⟨front, _, rfl, isYear, rfl⟩,
      _, second, rfl, ⟨month, isMonth, rfl⟩, isSecond⟩, rfl⟩, _, last, rfl, ⟨day, isDay, rfl⟩, -⟩, -⟩ := time
    have date := date_of_year isYear (last ++ rest) isMonth isSecond isDay
    simpa using date

/-! ## Texts -/

/-- A text that any pattern matches is one that is not written plain. -/
theorem old_of_matched {text : List Char} {entry : Kind × Pattern} (member : entry ∈ patterns)
    (matched : entry.2.rmatch text = true) : text = [] ∨ isOldScalar text = true := by
  have keyword (words : List String) (known : ∃ word ∈ words, text = word.toList)
      (each : ∀ word ∈ words, word.toList = [] ∨ isOldKeyword word.toList = true) :
      text = [] ∨ isOldScalar text = true := by
    obtain ⟨word, inWords, rfl⟩ := known
    rcases each word inWords with empty | old
    · exact .inl empty
    · exact .inr (by simp [isOldScalar, old])
  have number (old : isOldNumber text = true) : text = [] ∨ isOldScalar text = true :=
    .inr (by simp [isOldScalar, old])
  simp only [patterns, List.mem_cons, List.not_mem_nil, or_false] at member
  rcases member with rfl | rfl | rfl | rfl | rfl | rfl | rfl
  · exact keyword _ ((one_word_iff _ _).mp matched) (by decide)
  · exact number (old_number_of_float matched)
  · exact number (old_number_of_int matched)
  · exact keyword ["<<"] (by simpa using (word_iff _ _).mp matched) (by decide)
  · exact keyword _ ((one_word_iff _ _).mp matched) (by decide)
  · exact .inr (by simp [isOldScalar, date_of_timestamp matched])
  · exact keyword ["="] (by simpa using (word_iff _ _).mp matched) (by decide)

theorem kind_of_plain {text : List Char} (written : WrittenPlain text) (whole : trimEnd text = text) :
    kind text = .text := by
  have notOld := written.notOld whole
  have unmatched : patterns.find? (fun entry => entry.2.rmatch text) = none := by
    rw [List.find?_eq_none]
    intro entry member matched
    rcases old_of_matched member matched with rfl | old
    · have empty := written.plain
      contradiction
    · rw [notOld] at old
      contradiction
  rw [kind, unmatched]
  rfl

end TaskCab.Yaml.OldReader
