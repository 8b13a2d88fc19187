import Mathlib.Data.List.Find
import TaskCab.Proofs.Source.TokenText

/-!
# Edges of tokens

What a word, a number or a symbol is depends on the text after it only up to the first character that
can go on no token. Two texts that agree up to there put the same token in front.
-/

namespace TaskCab.Text

theorem take_while_stops {belongs : Char → Bool} (text : List Char) {rest : List Char}
    (stops : Stops belongs rest) : (text ++ rest).takeWhile belongs = text.takeWhile belongs := by
  induction text with
  | nil =>
      cases rest with
      | nil => rfl
      | cons character rest => simp [stops_cons.mp stops]
  | cons character text ih =>
      rw [List.cons_append, List.takeWhile_cons, List.takeWhile_cons, ih]

theorem prefix_of_stops {belongs : Char → Bool} {start : List Char}
    (all : ∀ character ∈ start, belongs character = true) (text : List Char) {rest : List Char}
    (stops : Stops belongs rest) : start.isPrefixOf (text ++ rest) = start.isPrefixOf text := by
  induction start generalizing text with
  | nil => simp
  | cons first start ih =>
      have belongsFirst := all first (.head _)
      cases text with
      | nil =>
          cases rest with
          | nil => rfl
          | cons character rest =>
              have different : first ≠ character := by
                rintro rfl
                simp [belongsFirst] at stops
              simp [List.isPrefixOf, different]
      | cons character text =>
          have later := ih (fun c member => all c (.tail _ member)) text
          simp [List.isPrefixOf, later]

theorem stops_of_imp {belongs other : Char → Bool} {text : List Char} (stops : Stops belongs text)
    (within : ∀ character, other character = true → belongs character = true) :
    Stops other text := by
  intro character member
  have outside := stops character member
  by_contra inside
  rw [within character (by simpa using inside)] at outside
  simp at outside

end TaskCab.Text

namespace TaskCab.Source.Lexeme

open TaskCab.Text

def inNumber (character : Char) : Bool :=
  isWordPart character || ".+-".toList.contains character

def goesOn (character : Char) : Bool :=
  isWordPart character || "=+-*/%@&|^~<>!.".toList.contains character

theorem goes_on_of_word_part {character : Char} (part : isWordPart character = true) :
    goesOn character = true := by
  rw [goesOn, part]
  rfl

theorem goes_on_of_in_number {character : Char} (inside : inNumber character = true) :
    goesOn character = true := by
  rcases Bool.or_eq_true_iff.mp inside with part | sign
  · exact goes_on_of_word_part part
  · have cases : character = '.' ∨ character = '+' ∨ character = '-' := by
      simpa using List.contains_iff_mem.mp sign
    rcases cases with rfl | rfl | rfl <;> rfl

theorem in_number_of_letter {character : Char} (letter : character.isAlpha = true) :
    inNumber character = true := by
  simp [inNumber, isWordPart, isWordStart, letter]

theorem in_number_of_digit {character : Char} (digit : character.isDigit = true) :
    inNumber character = true := by
  simp [inNumber, isWordPart, digit]

theorem stops_letters {letters : String} (all : ∀ letter ∈ letters.toList, inNumber letter = true)
    {rest : List Char} (stops : Stops inNumber rest) : Stops letters.toList.contains rest := by
  apply stops_of_imp stops
  intro character letter
  exact all character (List.contains_iff_mem.mp letter)

theorem decimal_length_edge (afterDigit : Bool) (text : List Char) {rest : List Char}
    (stops : Stops inNumber rest) :
    decimalLength afterDigit (text ++ rest) = decimalLength afterDigit text := by
  induction text generalizing afterDigit with
  | nil =>
      cases rest with
      | nil => rfl
      | cons character rest =>
          have outside := stops_cons.mp stops
          have notDigit : character.isDigit = false := by
            by_contra digit
            rw [in_number_of_digit (by simpa using digit)] at outside
            simp at outside
          have notUnderscore : character ≠ '_' := by
            rintro rfl
            simp [inNumber, isWordPart, isWordStart] at outside
          simp [decimalLength, notDigit, notUnderscore]
  | cons character text ih => simp only [List.cons_append, decimalLength, ih]

theorem decimal_length_le (afterDigit : Bool) (text : List Char) :
    decimalLength afterDigit text ≤ text.length := by
  induction text generalizing afterDigit with
  | nil => exact Nat.le_refl _
  | cons character text ih =>
      have digit := ih true
      have underscore := ih false
      simp only [decimalLength, List.length_cons]
      split
      · omega
      · split <;> omega

theorem in_number_of_digit_value {radix : Nat} {character : Char}
    (digit : (Integer.digitValue? radix character).isSome = true) : inNumber character = true := by
  by_cases isDigit : character.isDigit = true
  · exact in_number_of_digit isDigit
  apply in_number_of_letter
  by_cases lower : 'a' ≤ character ∧ character ≤ 'f'
  · have inside : 'a'.val ≤ character.val ∧ character.val ≤ 'z'.val :=
      ⟨lower.1, UInt32.le_trans lower.2 (by decide)⟩
    have isLower : character.isLower = true := by
      unfold Char.isLower
      simpa using inside
    unfold Char.isAlpha
    rw [isLower, Bool.or_true]
  by_cases upper : 'A' ≤ character ∧ character ≤ 'F'
  · have inside : 'A'.val ≤ character.val ∧ character.val ≤ 'Z'.val :=
      ⟨upper.1, UInt32.le_trans upper.2 (by decide)⟩
    have isUpper : character.isUpper = true := by
      unfold Char.isUpper
      simpa using inside
    unfold Char.isAlpha
    rw [isUpper, Bool.true_or]
  · simp [Integer.digitValue?, isDigit, lower, upper] at digit

theorem radix_length_edge (radix : Nat) (text : List Char) {rest : List Char}
    (stops : Stops inNumber rest) : radixLength radix (text ++ rest) = radixLength radix text := by
  have noDigit : ∀ character ∈ rest.head?, (Integer.digitValue? radix character).isSome = false := by
    intro character member
    have outside := stops character member
    apply Bool.eq_false_iff.mpr
    intro digit
    rw [in_number_of_digit_value digit] at outside
    simp at outside
  induction text with
  | nil =>
      cases rest with
      | nil => rfl
      | cons character rest =>
          have none := noDigit character rfl
          have notUnderscore : character ≠ '_' := by
            rintro rfl
            simp [inNumber, isWordPart, isWordStart] at stops
          simp [radixLength, none, notUnderscore]
  | cons character text ih =>
      have next : ((text ++ rest).head?.any fun c => (Integer.digitValue? radix c).isSome) =
          (text.head?.any fun c => (Integer.digitValue? radix c).isSome) := by
        cases text with
        | nil =>
            cases rest with
            | nil => rfl
            | cons other rest => simpa using noDigit other rfl
        | cons other text => rfl
      simp only [List.cons_append, radixLength, ih, next]

theorem radix_length_le (radix : Nat) (text : List Char) :
    radixLength radix text ≤ text.length := by
  induction text with
  | nil => exact Nat.le_refl _
  | cons character text ih =>
      simp only [radixLength, List.length_cons]
      split
      · omega
      · split <;> omega

theorem letter_length_edge {letters : String}
    (all : ∀ letter ∈ letters.toList, inNumber letter = true) (text : List Char) {rest : List Char}
    (stops : Stops inNumber rest) : letterLength letters (text ++ rest) = letterLength letters text := by
  cases text with
  | nil => exact letter_length_stops (stops_letters all stops)
  | cons character text => rfl

theorem letter_length_le (letters : String) (text : List Char) :
    letterLength letters text ≤ text.length := by
  unfold letterLength
  cases text with
  | nil => exact Nat.le_refl _
  | cons character text =>
      simp only [List.length_cons]
      split <;> omega

theorem exponent_length_edge (text : List Char) {rest : List Char} (stops : Stops inNumber rest) :
    exponentLength (text ++ rest) = exponentLength text := by
  cases text with
  | nil =>
      cases rest with
      | nil => rfl
      | cons letter rest =>
          have neither : letter ≠ 'e' ∧ letter ≠ 'E' := by
            constructor <;>
              · rintro rfl
                simp [inNumber, isWordPart, isWordStart] at stops
          simp [exponentLength, neither.1, neither.2]
  | cons letter text =>
      have sign := letter_length_edge (by decide : ∀ letter ∈ "+-".toList, inNumber letter = true)
        text stops
      have within := letter_length_le "+-" text
      simp only [List.cons_append, exponentLength, sign, List.drop_append_of_le_length within,
        decimal_length_edge _ _ stops]

theorem exponent_length_le (text : List Char) : exponentLength text ≤ text.length := by
  cases text with
  | nil => exact Nat.le_refl _
  | cons letter text =>
      have sign := letter_length_le "+-" text
      have digits := decimal_length_le false (text.drop (letterLength "+-" text))
      rw [List.length_drop] at digits
      simp only [exponentLength, List.length_cons]
      split
      · split <;> omega
      · omega

theorem fraction_length_edge (text : List Char) {rest : List Char} (stops : Stops inNumber rest) :
    fractionLength (text ++ rest) = fractionLength text := by
  cases text with
  | nil =>
      cases rest with
      | nil => rfl
      | cons character rest =>
          have notPoint : character ≠ '.' := by
            rintro rfl
            simp [inNumber] at stops
          simp [fractionLength, notPoint]
  | cons character text =>
      by_cases point : character = '.'
      · simp [point, fractionLength, decimal_length_edge false text stops]
      · simp [fractionLength, point]

theorem fraction_length_le (text : List Char) : fractionLength text ≤ text.length := by
  cases text with
  | nil => exact Nat.le_refl _
  | cons character text =>
      have digits := decimal_length_le false text
      by_cases point : character = '.'
      · simp only [point, fractionLength, List.length_cons]
        omega
      · simp [fractionLength, point]

theorem fraction_exponent_le (text : List Char) :
    fractionLength text + exponentLength (text.drop (fractionLength text)) ≤ text.length := by
  have fraction := fraction_length_le text
  have exponent := exponent_length_le (text.drop (fractionLength text))
  rw [List.length_drop] at exponent
  omega

theorem float_length_edge (whole : Nat) (text : List Char) {rest : List Char}
    (stops : Stops inNumber rest) : floatLength whole (text ++ rest) = floatLength whole text := by
  have within := fraction_exponent_le text
  rw [float_length_eq, float_length_eq, fraction_length_edge text stops]
  simp only [List.drop_append_of_le_length (fraction_length_le text), exponent_length_edge _ stops,
    List.drop_append_of_le_length within,
    letter_length_edge (by decide : ∀ letter ∈ "jJ".toList, inNumber letter = true) _ stops]

theorem float_length_le (whole : Nat) (text : List Char) :
    floatLength whole text ≤ whole + text.length := by
  have within := fraction_exponent_le text
  have suffix := letter_length_le "jJ"
    (text.drop (fractionLength text + exponentLength (text.drop (fractionLength text))))
  rw [List.length_drop] at suffix
  rw [float_length_eq]
  dsimp only
  split <;> omega

theorem marked_length_edge (radix : Nat) (text : List Char) {rest : List Char}
    (stops : Stops inNumber rest) : markedLength radix (text ++ rest) = markedLength radix text := by
  simp only [markedLength, radix_length_edge radix text stops,
    List.drop_append_of_le_length (radix_length_le radix text),
    letter_length_edge (by decide : ∀ letter ∈ "lL".toList, inNumber letter = true) _ stops]

theorem marked_length_le (radix : Nat) (text : List Char) :
    markedLength radix text ≤ 2 + text.length := by
  have digits := radix_length_le radix text
  have suffix := letter_length_le "lL" (text.drop (radixLength radix text))
  rw [List.length_drop] at suffix
  simp only [markedLength]
  split <;> omega

theorem decimal_number_edge (text : List Char) {rest : List Char} (stops : Stops inNumber rest) :
    decimalNumber (text ++ rest) = decimalNumber text := by
  simp only [decimalNumber, decimal_length_edge false text stops,
    List.drop_append_of_le_length (decimal_length_le false text), float_length_edge _ _ stops,
    letter_length_edge (by decide : ∀ letter ∈ "lLjJ".toList, inNumber letter = true) _ stops]

theorem decimal_number_le (text : List Char) : (decimalNumber text).2 ≤ text.length := by
  have whole := decimal_length_le false text
  have float := float_length_le (decimalLength false text) (text.drop (decimalLength false text))
  have suffix := letter_length_le "lLjJ" (text.drop (decimalLength false text))
  rw [List.length_drop] at float suffix
  simp only [decimalNumber]
  split
  · dsimp only
    split <;> omega
  · dsimp only
    omega

theorem radix_number_edge (text : List Char) {rest : List Char} (stops : Stops inNumber rest) :
    radixNumber (text ++ rest) = radixNumber text := by
  have outside {letter : Char} (inside : inNumber letter = true) (more : List Char) :
      rest ≠ letter :: more := by
    rintro rfl
    simp [inside] at stops
  match text with
  | [] =>
      cases rest with
      | nil => rfl
      | cons first rest =>
          have notZero : first ≠ '0' := fun same => outside (by decide : inNumber '0' = true) rest (by rw [same])
          simp [radixNumber, notZero]
  | [digit] =>
      cases rest with
      | nil => rfl
      | cons mark rest =>
          have none {letter : Char} (inside : inNumber letter = true) : mark ≠ letter :=
            fun same => outside inside rest (by rw [same])
          by_cases zero : digit = '0'
          · simp [radixNumber, zero, @none 'x' (by decide), @none 'X' (by decide),
              @none 'o' (by decide), @none 'O' (by decide), @none 'b' (by decide),
              @none 'B' (by decide)]
          · simp [radixNumber, zero]
  | digit :: mark :: more =>
      by_cases zero : digit = '0'
      · simp [radixNumber, zero, marked_length_edge _ _ stops]
      · simp [radixNumber, zero]

theorem radix_number_le (text : List Char) : radixNumber text ≤ text.length := by
  match text with
  | [] => exact Nat.le_refl _
  | [digit] => simp [radixNumber]
  | digit :: mark :: more =>
      have marked (radix : Nat) := marked_length_le radix more
      unfold radixNumber
      split
      next rest same =>
        obtain ⟨rfl, rfl, rfl⟩ : digit = '0' ∧ mark = _ ∧ more = rest := by simpa using same
        simp only [List.length_cons]
        have sixteen := marked 16
        have eight := marked 8
        have two := marked 2
        split
        · omega
        split
        · omega
        split <;> omega
      next => omega

theorem number_edge (text : List Char) {rest : List Char} (stops : Stops inNumber rest) :
    number (text ++ rest) = number text := by
  rw [number_eq, number_eq, radix_number_edge text stops, decimal_number_edge text stops]

theorem number_le (text : List Char) : (number text).2 ≤ text.length := by
  rw [number_eq]
  split
  · exact decimal_number_le text
  · exact radix_number_le text

theorem stops_number {rest : List Char} (stops : Stops goesOn rest) : Stops inNumber rest :=
  stops_of_imp stops fun _ => goes_on_of_in_number

theorem word_part_of_flag {character : Char} (flag : Quoted.isFlag character = true) :
    isWordPart character = true := by
  have cases : character = 'r' ∨ character = 'R' ∨ character = 'u' ∨ character = 'U' ∨
      character = 'b' ∨ character = 'B' ∨ character = 'f' ∨ character = 'F' := by
    simpa using List.contains_iff_mem.mp flag
  rcases cases with rfl | rfl | rfl | rfl | rfl | rfl | rfl | rfl <;> rfl

theorem goes_on_of_flag {character : Char} (flag : Quoted.isFlag character = true) :
    goesOn character = true := goes_on_of_word_part (word_part_of_flag flag)

theorem opening_none_iff {text : List Char} :
    Quoted.opening? text = none ↔
      ∀ character ∈ (text.dropWhile Quoted.isFlag).head?, Quoted.isMark character = false := by
  unfold Quoted.opening?
  dsimp only
  rw [drop_take_while]
  cases text.dropWhile Quoted.isFlag with
  | nil => simp
  | cons mark rest => simp

def SameMark (left right : List Char) : Prop :=
  ∀ mark, Quoted.isMark mark = true → (left.head? = some mark ↔ right.head? = some mark)

theorem opening_none_edge (text : List Char) {left right : List Char} (stopsLeft : Stops goesOn left)
    (stopsRight : Stops goesOn right) (same : SameMark left right)
    (closed : Quoted.opening? (text ++ left) = none) : Quoted.opening? (text ++ right) = none := by
  have noFlag {rest : List Char} (stops : Stops goesOn rest) :
      rest.dropWhile Quoted.isFlag = rest :=
    drop_while_stops (stops_of_imp stops fun _ => goes_on_of_flag)
  rw [opening_none_iff, List.dropWhile_append] at closed ⊢
  split
  next empty =>
    rw [if_pos empty, noFlag stopsLeft] at closed
    rw [noFlag stopsRight]
    intro character isHead
    apply Bool.eq_false_iff.mpr
    intro mark
    rw [closed character ((same character mark).mpr isHead)] at mark
    simp at mark
  next nonempty =>
    rw [if_neg nonempty] at closed
    cases found : text.dropWhile Quoted.isFlag with
    | nil => simp [found] at nonempty
    | cons character rest =>
        rw [found] at closed
        exact closed

theorem symbol_length_edge (character : Char) (text : List Char) {rest : List Char}
    (stops : Stops goesOn rest) :
    symbolLength (character :: (text ++ rest)) = symbolLength (character :: text) := by
  have tails : ∀ symbol ∈ longSymbols, ∀ later ∈ symbol.tail, goesOn later = true := by decide +kernel
  have same : ∀ symbol ∈ longSymbols, symbol.isPrefixOf (character :: (text ++ rest)) =
      symbol.isPrefixOf (character :: text) := by
    intro symbol member
    cases symbol with
    | nil => rfl
    | cons first more =>
        have later := prefix_of_stops (tails _ member) text stops
        simp only [List.tail_cons] at later
        simp only [List.isPrefixOf, later]
  rw [symbolLength, symbolLength, List.find?_congr same]

def bare (character : Char) (rest : List Char) : LexemeKind × Nat :=
  if (number (character :: rest)).2 ≠ 0 then number (character :: rest)
  else if isWordStart character then (.word, 1 + (rest.takeWhile isWordPart).length)
  else if isSymbol character then (.symbol, symbolLength (character :: rest))
  else (.stray, 1)

theorem bare_edge (character : Char) (text : List Char) {rest : List Char}
    (stops : Stops goesOn rest) : bare character (text ++ rest) = bare character text := by
  have number := number_edge (character :: text) (stops_number stops)
  have word := take_while_stops text (stops_of_imp stops fun _ => goes_on_of_word_part)
  rw [List.cons_append] at number
  rw [bare, bare, number, word, symbol_length_edge character text stops]

/-- Two texts that are the same up to the first character that goes on no token, or to a mark. -/
def AlikeAhead (left right : List Char) : Prop :=
  ∃ shared leftRest rightRest, left = shared ++ leftRest ∧ right = shared ++ rightRest ∧
    Stops goesOn leftRest ∧ Stops goesOn rightRest ∧ SameMark leftRest rightRest

theorem alike_append {left right : List Char} (shared : List Char) (alike : AlikeAhead left right) :
    AlikeAhead (shared ++ left) (shared ++ right) := by
  obtain ⟨more, leftRest, rightRest, rfl, rfl, stops⟩ := alike
  exact ⟨shared ++ more, leftRest, rightRest, (List.append_assoc ..).symm,
    (List.append_assoc ..).symm, stops⟩

theorem same_mark_of_alike {left right : List Char} (alike : AlikeAhead left right) :
    SameMark left right := by
  obtain ⟨shared, leftRest, rightRest, rfl, rfl, -, -, same⟩ := alike
  cases shared with
  | nil => exact same
  | cons first more => exact fun _ _ => Iff.rfl

end TaskCab.Source.Lexeme

namespace TaskCab.Source

open TaskCab.Text

def LexemeKind.isBare : LexemeKind → Bool
  | .word | .integer | .float | .symbol => true
  | _ => false

namespace Lexeme

/-- Whether a character is none that the gaps between tokens are made of. -/
def IsVisible (character : Char) : Prop :=
  character ≠ '\n' ∧ isBlank character = false ∧ character ≠ '#' ∧ character ≠ '\\' ∧
    isUnseen character = false

theorem visible_of_token {character : Char} {rest : List Char} {kind : LexemeKind} {length : Nat}
    (found : first character rest = (kind, length)) (isToken : kind.isToken = true) :
    IsVisible character := by
  unfold first at found
  dsimp only at found
  split at found
  next => obtain ⟨rfl, -⟩ := Prod.mk.inj found; simp [LexemeKind.isToken] at isToken
  next notNewline =>
  split at found
  next => obtain ⟨rfl, -⟩ := Prod.mk.inj found; simp [LexemeKind.isToken] at isToken
  next notBlank =>
  split at found
  next => obtain ⟨rfl, -⟩ := Prod.mk.inj found; simp [LexemeKind.isToken] at isToken
  next notComment =>
  split at found
  next =>
    split at found <;> obtain ⟨rfl, -⟩ := Prod.mk.inj found <;> simp [LexemeKind.isToken] at isToken
  next notBackslash =>
  split at found
  next => obtain ⟨rfl, -⟩ := Prod.mk.inj found; simp [LexemeKind.isToken] at isToken
  next seen =>
    exact ⟨notNewline, by simpa using notBlank, notComment, notBackslash, by simpa using seen⟩

theorem first_visible {character : Char} (visible : IsVisible character) (rest : List Char) :
    first character rest =
      match Quoted.opening? (character :: rest) with
      | some _ =>
          match Quoted.length? (character :: rest) with
          | some length => (.string, length)
          | none => (.stray, 1)
      | none => bare character rest := by
  obtain ⟨notNewline, notBlank, notComment, notBackslash, seen⟩ := visible
  unfold first
  simp only [notNewline, notBlank, notComment, notBackslash, seen, if_false, Bool.false_eq_true]
  rfl

theorem token_of_bare {kind : LexemeKind} (bare : kind.isBare = true) : kind.isToken = true := by
  cases kind <;> simp_all [LexemeKind.isBare, LexemeKind.isToken]

theorem no_literal_of_bare {character : Char} {rest : List Char} {kind : LexemeKind} {length : Nat}
    (found : first character rest = (kind, length)) (bare : kind.isBare = true) :
    Quoted.opening? (character :: rest) = none := by
  rw [first_visible (visible_of_token found (token_of_bare bare))] at found
  split at found
  next =>
    split at found <;> obtain ⟨rfl, -⟩ := Prod.mk.inj found <;> simp [LexemeKind.isBare] at bare
  next none => exact none

theorem first_eq_bare {character : Char} {rest : List Char} {kind : LexemeKind} {length : Nat}
    (found : first character rest = (kind, length)) (isBare : kind.isBare = true) :
    bare character rest = (kind, length) := by
  have noLiteral := no_literal_of_bare found isBare
  rw [first_visible (visible_of_token found (token_of_bare isBare)), noLiteral] at found
  exact found

/-- A word, a number or a symbol is found again in front of a text that is alike ahead. -/
theorem starts_bare {lexeme : Lexeme} (isBare : lexeme.kind.isBare = true) {left right : List Char}
    (alike : AlikeAhead left right) (starts : lexeme.Starts left) : lexeme.Starts right := by
  obtain ⟨shared, leftRest, rightRest, rfl, rfl, stopsLeft, stopsRight, same⟩ := alike
  obtain ⟨character, rest, text, found⟩ := starts
  have noLiteral := no_literal_of_bare found isBare
  have read := first_eq_bare found isBare
  rw [← List.append_assoc] at noLiteral read
  rw [bare_edge _ _ stopsLeft] at read
  rw [← List.cons_append] at noLiteral
  refine ⟨character, rest, text, ?_⟩
  rw [first_visible (visible_of_token found (token_of_bare isBare)), ← List.append_assoc,
    ← List.cons_append, opening_none_edge _ stopsLeft stopsRight same noLiteral]
  exact (bare_edge _ _ stopsRight).trans read

theorem first_bare_cases {character : Char} {rest : List Char} {kind : LexemeKind} {length : Nat}
    (found : first character rest = (kind, length)) (isBare : kind.isBare = true) :
    (number (character :: rest) = (kind, length) ∧ length ≠ 0) ∨
      (kind = .word ∧ isWordStart character = true ∧
        length = 1 + (rest.takeWhile isWordPart).length) ∨
      (kind = .symbol ∧ isSymbol character = true ∧ length = symbolLength (character :: rest)) := by
  have read := first_eq_bare found isBare
  rw [bare] at read
  split at read
  next positive =>
    refine .inl ⟨read, ?_⟩
    rwa [← (Prod.mk.inj read).2]
  split at read
  next isStart =>
    obtain ⟨rfl, rfl⟩ := Prod.mk.inj read
    exact .inr (.inl ⟨rfl, isStart, rfl⟩)
  split at read
  next isSymbol =>
    obtain ⟨rfl, rfl⟩ := Prod.mk.inj read
    exact .inr (.inr ⟨rfl, isSymbol, rfl⟩)
  next =>
    obtain ⟨rfl, -⟩ := Prod.mk.inj read
    simp [LexemeKind.isBare] at isBare

theorem number_kind (text : List Char) :
    (number text).1 = .integer ∨ (number text).1 = .float := by
  rw [number_eq]
  split
  · unfold decimalNumber
    dsimp only
    split
    · exact .inl rfl
    · exact .inr rfl
  · exact .inl rfl

theorem bare_kind (character : Char) (rest : List Char) :
    (bare character rest).1.isBare = true ∨ (bare character rest).1 = .stray := by
  have kinds := number_kind (character :: rest)
  unfold bare
  split
  · rcases kinds with kind | kind <;> exact .inl (by rw [kind]; rfl)
  split
  · exact .inl rfl
  split
  · exact .inl rfl
  · exact .inr rfl

theorem visible_kind {character : Char} (visible : IsVisible character) (rest : List Char) :
    (first character rest).1.isToken = true ∨ (first character rest).1 = .stray := by
  rw [first_visible visible]
  split
  · split
    · exact .inl rfl
    · exact .inr rfl
  · exact (bare_kind character rest).imp_left token_of_bare

theorem in_number_of_number {text after : List Char} (length : (number (text ++ after)).2 = text.length) :
    ∀ character ∈ text, inNumber character = true := by
  intro character member
  by_contra outside
  obtain ⟨before, behind, rfl⟩ := List.append_of_mem member
  have stops : Stops inNumber (character :: (behind ++ after)) :=
    stops_cons.mpr (by simpa using outside)
  have cut := number_edge before stops
  have bound := number_le before
  rw [List.append_assoc, List.cons_append, cut] at length
  simp only [List.length_append, List.length_cons] at length
  omega

theorem eq_take_while {belongs : Char → Bool} {text after : List Char}
    (length : ((text ++ after).takeWhile belongs).length = text.length) :
    (text ++ after).takeWhile belongs = text := by
  have same := List.prefix_iff_eq_take.mp (@List.takeWhile_prefix _ (text ++ after) belongs)
  rw [same, length, List.take_left]

theorem starts_in_number {lexeme : Lexeme} (bare : lexeme.kind.isBare = true)
    (noSymbol : lexeme.kind ≠ .symbol) {after : List Char} (starts : lexeme.Starts after) :
    ∀ character ∈ lexeme.text, inNumber character = true := by
  obtain ⟨first, rest, text, found⟩ := starts
  rw [text] at found ⊢
  rcases first_bare_cases found bare with ⟨isNumber, -⟩ | ⟨-, isStart, length⟩ | ⟨symbol, -⟩
  · apply in_number_of_number
    rw [List.cons_append, isNumber]
  · rw [List.length_cons, Nat.add_comm, Nat.add_left_cancel_iff] at length
    have run := eq_take_while length.symm
    intro character member
    rw [inNumber]
    rcases List.mem_cons.mp member with rfl | within
    · rw [isWordPart, isStart]
      rfl
    · rw [← run] at within
      rw [List.mem_takeWhile_imp within]
      rfl
  · exact absurd symbol noSymbol

theorem starts_symbol {lexeme : Lexeme} (symbol : lexeme.kind = .symbol) {after : List Char}
    (starts : lexeme.Starts after) :
    lexeme.text ∈ longSymbols ∨ ∃ character, isSymbol character = true ∧ lexeme.text = [character] := by
  obtain ⟨first, rest, text, found⟩ := starts
  rw [text] at found ⊢
  rcases first_bare_cases found (by rw [symbol]; rfl) with ⟨isNumber, -⟩ | ⟨isWord, -⟩ |
    ⟨-, isSymbol, length⟩
  · have kinds := number_kind (first :: (rest ++ after))
    rw [isNumber, symbol] at kinds
    simp at kinds
  · simp [symbol] at isWord
  · rw [symbolLength] at length
    split at length
    next long found =>
      have starts := List.find?_some found
      have same := List.prefix_iff_eq_take.mp (List.isPrefixOf_iff_prefix.mp starts)
      rw [← length, ← List.cons_append, List.take_left] at same
      left
      rw [← same]
      exact List.mem_of_find?_eq_some found
    next =>
      obtain rfl : rest = [] := by simpa using length
      exact .inr ⟨first, isSymbol, rfl⟩

end Lexeme

end TaskCab.Source
