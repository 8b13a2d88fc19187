import TaskCab.Proofs.Yaml.QuotedScalar

/-!
# Reading escaped text

The body of a double-quoted text holds no character that a reader would take for a line end or refuse, and
none of its quotes stands alone. An escape has one letter or four digits, so that it does not reach into what
follows, and the characters that the escapes stand for are the text.
-/

namespace TaskCab.Yaml

open TaskCab.Text

/-- What stands in front of and behind the first quote that no backslash carries along. -/
def untilQuote? : List Char → Option (List Char × List Char)
  | [] => none
  | '"' :: rest => some ([], rest)
  | '\\' :: [] => none
  | '\\' :: carried :: rest =>
      (untilQuote? rest).map fun (body, after) => ('\\' :: carried :: body, after)
  | character :: rest => (untilQuote? rest).map fun (body, after) => (character :: body, after)

def letterMeaning? (letter : Char) : Option Char :=
  (letterEscapes.find? fun entry => entry.2 = letter).map Prod.fst

def codeMeaning? (digits : List Char) : Option Char :=
  (Integer.readDigits? 16 0 digits).bind fun code =>
    if code.isValidChar then some (Char.ofNat code) else none

/-- The text that a body stands for. Backslashes stand only in front of a letter with a meaning or of four
digits behind a `u`, and quotes only behind a backslash. -/
def unescape? : List Char → Option (List Char)
  | [] => some []
  | '\\' :: 'u' :: first :: second :: third :: fourth :: rest =>
      (codeMeaning? [first, second, third, fourth]).bind fun character =>
        (unescape? rest).map (character :: ·)
  | '\\' :: letter :: rest =>
      (letterMeaning? letter).bind fun character => (unescape? rest).map (character :: ·)
  | character :: rest =>
      if character = '\\' ∨ character = '"' then none else (unescape? rest).map (character :: ·)

/-! ## The closing quote -/

theorem until_quote_ordinary {character : Char} (notBackslash : character ≠ '\\')
    (notQuote : character ≠ '"') (rest : List Char) :
    untilQuote? (character :: rest) =
      (untilQuote? rest).map fun (body, after) => (character :: body, after) := by
  rw [untilQuote?.eq_def]
  split
  all_goals simp_all

/-- A body without a quote of its own reaches up to the quote behind it. -/
theorem until_quote_of_closed {body : List Char} (closed : ClosedDouble body) (rest : List Char) :
    untilQuote? (body ++ '"' :: rest) = some (body, rest) := by
  induction body using ClosedDouble.induct with
  | case1 => rfl
  | case2 carried body ih => simp [untilQuote?, ih closed]
  | case3 => exact closed.elim
  | case4 => exact closed.elim
  | case5 character body notPair notEnd notQuote ih =>
      have notBackslash : character ≠ '\\' := by
        rintro rfl
        cases body with
        | nil => exact notEnd rfl rfl
        | cons carried more => exact notPair carried more rfl rfl
      rw [closed_double_ordinary notBackslash notQuote] at closed
      rw [List.cons_append, until_quote_ordinary notBackslash notQuote, ih closed]
      rfl

/-! ## The meaning of escapes -/

theorem unescape_ordinary {character : Char} (notBackslash : character ≠ '\\')
    (notQuote : character ≠ '"') (rest : List Char) :
    unescape? (character :: rest) = (unescape? rest).map (character :: ·) := by
  rw [unescape?.eq_def]
  split
  all_goals simp_all

theorem letter_meanings :
    ∀ entry ∈ letterEscapes, letterMeaning? entry.2 = some entry.1 := by
  decide

theorem unescape_letter {letter : Char} (notCode : letter ≠ 'u') (rest : List Char) :
    unescape? ('\\' :: letter :: rest) =
      (letterMeaning? letter).bind fun character => (unescape? rest).map (character :: ·) := by
  rw [unescape?.eq_def]
  split
  next empty => cases empty
  next same => exact absurd (List.cons.inj (List.cons.inj same).2).1 notCode
  next same =>
    obtain ⟨rfl, rfl⟩ := List.cons.inj (List.cons.inj same).2
    rfl
  next notPair same =>
    obtain ⟨rfl, rfl⟩ := List.cons.inj same
    exact absurd rfl (notPair letter rest rfl)

theorem code_meaning_of_escaped {character : Char} (escaped : character.toNat ∈ escapedCodes) :
    codeMeaning? (hexadecimal 4 character.toNat) = some character := by
  have valid : character.toNat.isValidChar := character.valid
  rw [codeMeaning?, (hexadecimal_codes _ escaped).2.1, Option.bind_some, if_pos valid,
    Char.ofNat_toNat]

theorem unescape_code {digits : List Char} (four : digits.length = 4) (rest : List Char) :
    unescape? ('\\' :: 'u' :: (digits ++ rest)) =
      (codeMeaning? digits).bind fun character => (unescape? rest).map (character :: ·) := by
  match digits, four with
  | [first, second, third, fourth], _ => rfl

/-- What is written for a character stands for it, whatever comes after it. -/
theorem unescape_form {character : Char} {written : List Char} (form : EscapeForm character written)
    (rest : List Char) : unescape? (written ++ rest) = (unescape? rest).map (character :: ·) := by
  rcases form with ⟨letter, member, rfl⟩ | ⟨member, rfl⟩ | ⟨notBackslash, notQuote, -, rfl⟩
  · have notCode := (letter_escapes_sound.1 _ member).2
    change unescape? ('\\' :: letter :: rest) = _
    rw [unescape_letter notCode, letter_meanings _ member, Option.bind_some]
  · change unescape? ('\\' :: 'u' :: (hexadecimal 4 character.toNat ++ rest)) = _
    rw [unescape_code (hexadecimal_codes _ member).1, code_meaning_of_escaped member,
      Option.bind_some]
  · exact unescape_ordinary notBackslash notQuote rest

theorem unescape_escaped (text : List Char) : unescape? (text.flatMap escapeChar) = some text := by
  induction text with
  | nil => rfl
  | cons character rest ih =>
      rw [List.flatMap_cons, unescape_form (escape_char_cases character), ih, Option.map_some]

/-! ## The characters of a body -/

theorem letters_need_no_escape :
    needsEscape '\\' = false ∧ ∀ entry ∈ letterEscapes, needsEscape entry.2 = false := by
  decide

theorem digits_need_no_escape :
    ∀ code ∈ escapedCodes, ∀ digit ∈ hexadecimal 4 code, needsEscape digit = false := by
  decide +kernel

theorem bare_of_itself {character : Char} (itself : escapeChar character = [character]) :
    needsEscape character = false := by
  rw [← Bool.not_eq_true]
  intro needed
  unfold escapeChar at itself
  split_ifs at itself
  all_goals simp at itself

theorem escape_char_bare (character : Char) :
    ∀ written ∈ escapeChar character, needsEscape written = false := by
  intro written member
  rcases escape_char_cases character with ⟨letter, listed, same⟩ | ⟨coded, same⟩ | ⟨-, -, -, same⟩
  · rw [same, List.mem_cons, List.mem_singleton] at member
    rcases member with rfl | rfl
    · exact letters_need_no_escape.1
    · exact letters_need_no_escape.2 _ listed
  · rw [same, List.mem_cons, List.mem_cons] at member
    rcases member with rfl | rfl | digit
    · exact letters_need_no_escape.1
    · rfl
    · exact digits_need_no_escape _ coded written digit
  · rw [same, List.mem_singleton] at member
    rw [member]
    exact bare_of_itself same

/-- A double-quoted text is a body between two quotes. The body holds no control character, no separator of
lines or paragraphs and no mark of the byte order; the first quote behind the opening one that no backslash
carries along is the closing one, whatever comes after it; and the body stands for the text. -/
theorem double_quoted_reads_back (text : List Char) :
    ∃ body, doubleQuoted text = '"' :: (body ++ ['"']) ∧
      (∀ character ∈ body,
        isControl character = false ∧ character ∉ ['\u2028', '\u2029', '\ufeff']) ∧
      (∀ rest, untilQuote? (body ++ '"' :: rest) = some (body, rest)) ∧
      unescape? body = some text := by
  refine ⟨text.flatMap escapeChar, rfl, ?_, ?_, unescape_escaped text⟩
  · intro written member
    obtain ⟨character, -, within⟩ := List.mem_flatMap.mp member
    have bare := escape_char_bare character written within
    simp only [needsEscape, Bool.or_eq_false_iff, decide_eq_false_iff_not] at bare
    obtain ⟨⟨⟨notControl, notLine⟩, notParagraph⟩, notMark⟩ := bare
    exact ⟨notControl, by simp [notLine, notParagraph, notMark]⟩
  · intro rest
    apply until_quote_of_closed
    exact closed_double_flat_map fun character _ => is_piece_of_form (escape_char_cases character)

/-- Backslashes in front of a quote, and a code in front of a digit. -/
example : unescape? ((doubleQuoted "\\\\\"\u00851".toList).tail.dropLast) =
    some "\\\\\"\u00851".toList := by
  decide

end TaskCab.Yaml
