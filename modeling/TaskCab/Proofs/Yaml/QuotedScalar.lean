import TaskCab.Proofs.Text.Trim
import TaskCab.Yaml.Scalar

/-!
# Where quoted scalars end

The body of a quoted scalar never holds its closing quote, so that the scalar can be told from whatever
is written after it. Quotes of either kind also keep apart any two texts.
-/

namespace TaskCab.Yaml

open TaskCab.Text

/-- Whether backslashes in a body carry the character after them along and no quote is left over. -/
def ClosedDouble : List Char → Prop
  | [] => True
  | '\\' :: _ :: rest => ClosedDouble rest
  | '\\' :: [] => False
  | '"' :: _ => False
  | _ :: rest => ClosedDouble rest

/-- Whether the quotes in a body come in pairs. -/
def ClosedSingle : List Char → Prop
  | [] => True
  | '\'' :: '\'' :: rest => ClosedSingle rest
  | '\'' :: _ => False
  | _ :: rest => ClosedSingle rest

theorem closed_double_ordinary {character : Char} (notBackslash : character ≠ '\\')
    (notQuote : character ≠ '"') (rest : List Char) :
    ClosedDouble (character :: rest) ↔ ClosedDouble rest := by
  rw [ClosedDouble.eq_def]
  split
  all_goals simp_all

theorem closed_single_ordinary {character : Char} (notQuote : character ≠ '\'')
    (rest : List Char) : ClosedSingle (character :: rest) ↔ ClosedSingle rest := by
  rw [ClosedSingle.eq_def]
  split
  all_goals simp_all

theorem double_ends {left right after before : List Char} (closedLeft : ClosedDouble left)
    (closedRight : ClosedDouble right) (same : left ++ '"' :: after = right ++ '"' :: before) :
    left = right ∧ after = before := by
  induction left using ClosedDouble.induct generalizing right with
  | case1 =>
      cases right with
      | nil => simpa using same
      | cons character rest =>
          obtain ⟨rfl, -⟩ := List.cons.inj same
          simp [ClosedDouble] at closedRight
  | case2 letter rest ih =>
      match right with
      | [] => simp at same
      | [character] =>
          obtain ⟨rfl, -⟩ := List.cons.inj same
          simp [ClosedDouble] at closedRight
      | character :: other :: more =>
          obtain ⟨rfl, later⟩ := List.cons.inj same
          obtain ⟨rfl, tails⟩ := List.cons.inj later
          obtain ⟨rfl, ends⟩ := @ih more closedLeft closedRight tails
          exact ⟨rfl, ends⟩
  | case3 => simp [ClosedDouble] at closedLeft
  | case4 => simp [ClosedDouble] at closedLeft
  | case5 character rest notPair notEnd notQuote ih =>
      have notBackslash : character ≠ '\\' := by
        rintro rfl
        cases rest with
        | nil => exact notEnd rfl rfl
        | cons letter more => exact notPair letter more rfl rfl
      rw [closed_double_ordinary notBackslash notQuote] at closedLeft
      cases right with
      | nil => exact absurd (List.cons.inj same).1 notQuote
      | cons other more =>
          obtain ⟨rfl, tails⟩ := List.cons.inj same
          rw [closed_double_ordinary notBackslash notQuote] at closedRight
          obtain ⟨rfl, ends⟩ := ih closedLeft closedRight tails
          exact ⟨rfl, ends⟩

theorem single_ends {left right after before : List Char} (closedLeft : ClosedSingle left)
    (closedRight : ClosedSingle right) (noQuote : after.head? ≠ some '\'')
    (noOther : before.head? ≠ some '\'') (same : left ++ '\'' :: after = right ++ '\'' :: before) :
    left = right ∧ after = before := by
  induction left using ClosedSingle.induct generalizing right with
  | case1 =>
      match right with
      | [] => simpa using same
      | [character] =>
          obtain ⟨rfl, -⟩ := List.cons.inj same
          simp [ClosedSingle] at closedRight
      | character :: other :: more =>
          obtain ⟨rfl, tails⟩ := List.cons.inj same
          rw [tails] at noQuote
          by_cases quote : other = '\''
          · exact absurd (by simp [quote]) noQuote
          · simp [ClosedSingle, quote] at closedRight
  | case2 rest ih =>
      match right with
      | [] =>
          obtain ⟨-, tails⟩ := List.cons.inj same
          exact absurd (by simp [← tails]) noOther
      | [character] =>
          obtain ⟨rfl, -⟩ := List.cons.inj same
          simp [ClosedSingle] at closedRight
      | character :: other :: more =>
          obtain ⟨rfl, later⟩ := List.cons.inj same
          obtain ⟨rfl, tails⟩ := List.cons.inj later
          obtain ⟨rfl, ends⟩ := @ih more closedLeft closedRight tails
          exact ⟨rfl, ends⟩
  | case3 rest notPair => simp [ClosedSingle] at closedLeft
  | case4 character rest notPair notQuote ih =>
      rw [closed_single_ordinary notQuote] at closedLeft
      cases right with
      | nil => exact absurd (List.cons.inj same).1 notQuote
      | cons other more =>
          obtain ⟨rfl, tails⟩ := List.cons.inj same
          rw [closed_single_ordinary notQuote] at closedRight
          obtain ⟨rfl, ends⟩ := ih closedLeft closedRight tails
          exact ⟨rfl, ends⟩

/-- Whether a text stands on one line and is the whole of something that quotes may stand around. -/
structure IsPiece (piece : List Char) : Prop where
  closed : ∀ rest, ClosedDouble (piece ++ rest) ↔ ClosedDouble rest
  oneLine : '\n' ∉ piece

theorem closed_double_flat_map {escape : Char → List Char} {text : List Char}
    (pieces : ∀ character ∈ text, IsPiece (escape character)) :
    ClosedDouble (text.flatMap escape) := by
  induction text with
  | nil => trivial
  | cons character rest ih =>
      obtain ⟨first, later⟩ := List.forall_mem_cons.mp pieces
      rw [List.flatMap_cons]
      exact (first.closed _).mpr (ih later)

theorem is_piece_pair {letter : Char} (notNewline : letter ≠ '\n') : IsPiece ['\\', letter] := by
  constructor
  · intro rest
    rfl
  · simpa using notNewline.symm

theorem is_piece_ordinary {character : Char} (notBackslash : character ≠ '\\')
    (notQuote : character ≠ '"') (notNewline : character ≠ '\n') : IsPiece [character] := by
  constructor
  · exact closed_double_ordinary notBackslash notQuote
  · simpa using notNewline.symm

def escapedCodes : List Nat :=
  List.range 0x20 ++ (List.range 0x21).map (0x7F + ·) ++ [0x2028, 0x2029, 0xFEFF, 0xFFFE, 0xFFFF]

theorem mem_escaped_codes {code : Nat}
    (escaped : code < 0x20 ∨ (0x7F ≤ code ∧ code ≤ 0x9F) ∨ code = 0x2028 ∨ code = 0x2029 ∨
      code = 0xFEFF ∨ code = 0xFFFE ∨ code = 0xFFFF) : code ∈ escapedCodes := by
  simp only [escapedCodes, List.mem_append, List.mem_range, List.mem_map, List.mem_cons,
    List.not_mem_nil, or_false]
  rcases escaped with control | latin | rest
  · exact .inl (.inl control)
  · exact .inl (.inr ⟨code - 0x7F, by omega, by omega⟩)
  · exact .inr rest

theorem mem_codes_of_needs_escape {character : Char} (escaped : needsEscape character = true) :
    character.toNat ∈ escapedCodes := by
  apply mem_escaped_codes
  simp only [needsEscape, isControl, Bool.or_eq_true, decide_eq_true_eq] at escaped
  rcases escaped with ((control | rfl) | rfl) | rfl
  · omega
  · decide
  · decide
  · decide

theorem hexadecimal_codes :
    ∀ code ∈ escapedCodes, (hexadecimal 4 code).length = 4 ∧
      Integer.readDigits? 16 0 (hexadecimal 4 code) = some code ∧
        ∀ digit ∈ hexadecimal 4 code, digit ≠ '\\' ∧ digit ≠ '"' ∧ digit ≠ '\n' := by
  decide +kernel

theorem is_piece_code {code : Nat} (member : code ∈ escapedCodes) :
    IsPiece ('\\' :: 'u' :: hexadecimal 4 code) := by
  have ordinary := (hexadecimal_codes code member).2.2
  generalize hexadecimal 4 code = digits at ordinary
  constructor
  · intro rest
    change ClosedDouble (digits ++ rest) ↔ ClosedDouble rest
    induction digits with
    | nil => rfl
    | cons digit more ih =>
        obtain ⟨notBackslash, notQuote, -⟩ := ordinary digit (.head _)
        rw [List.cons_append, closed_double_ordinary notBackslash notQuote]
        exact ih fun other within => ordinary other (.tail _ within)
  · intro within
    rcases List.mem_cons.mp within with same | within
    · simp at same
    rcases List.mem_cons.mp within with same | within
    · simp at same
    · exact (ordinary _ within).2.2 rfl

def letterEscapes : List (Char × Char) :=
  [('"', '"'), ('\\', '\\'), ('\n', 'n'), ('\t', 't'), ('\r', 'r'), ('\x00', '0')]

/-- What a character may be written as between double quotes: an escape of one letter, its code, or
itself. -/
def EscapeForm (character : Char) (written : List Char) : Prop :=
  (∃ letter, (character, letter) ∈ letterEscapes ∧ written = ['\\', letter]) ∨
  (character.toNat ∈ escapedCodes ∧ written = '\\' :: 'u' :: hexadecimal 4 character.toNat) ∨
  (character ≠ '\\' ∧ character ≠ '"' ∧ character ≠ '\n' ∧ written = [character])

theorem escape_char_cases (character : Char) : EscapeForm character (escapeChar character) := by
  by_cases quote : character = '"'
  · exact .inl ⟨'"', by simp [quote, letterEscapes], by simp [quote, escapeChar]⟩
  by_cases backslash : character = '\\'
  · exact .inl ⟨'\\', by simp [backslash, letterEscapes], by simp [backslash, escapeChar]⟩
  by_cases newline : character = '\n'
  · exact .inl ⟨'n', by simp [newline, letterEscapes], by simp [newline, escapeChar]⟩
  by_cases tab : character = '\t'
  · exact .inl ⟨'t', by simp [tab, letterEscapes], by simp [tab, escapeChar]⟩
  by_cases carriage : character = '\r'
  · exact .inl ⟨'r', by simp [carriage, letterEscapes], by simp [carriage, escapeChar]⟩
  by_cases null : character = '\x00'
  · exact .inl ⟨'0', by simp [null, letterEscapes], by simp [null, escapeChar]⟩
  by_cases coded : needsEscape character = true
  · refine .inr (.inl ⟨mem_codes_of_needs_escape coded, ?_⟩)
    simp [escapeChar, quote, backslash, newline, tab, carriage, null, coded]
  · refine .inr (.inr ⟨backslash, quote, newline, ?_⟩)
    simp [escapeChar, quote, backslash, newline, tab, carriage, null, coded]

theorem letter_escapes_sound :
    (∀ entry ∈ letterEscapes, entry.2 ≠ '\n' ∧ entry.2 ≠ 'u') ∧
      ∀ left ∈ letterEscapes, ∀ right ∈ letterEscapes, left.2 = right.2 → left.1 = right.1 := by
  decide

/-- A character that needs no escape is written as itself, or escaped if it is no printed one. -/
theorem escaped_cases {character : Char} (bare : needsEscape character = false) :
    EscapeForm character (escaped character) := by
  unfold escaped
  split
  next letter found =>
    obtain ⟨before, after, table, -⟩ := List.lookup_eq_some_iff.mp found
    have member : (character, letter) ∈ shortEscapes := by simp [table]
    have letters : ∀ entry ∈ shortEscapes, needsEscape entry.1 = false → entry ∈ letterEscapes := by
      decide
    exact .inl ⟨letter, letters _ member bare, rfl⟩
  next missing =>
    split
    next unprintable =>
      have mark : character = '\ufffe' ∨ character = '\uffff' := by
        simp only [needsEscape, Bool.or_eq_false_iff, decide_eq_false_iff_not] at bare
        simp only [isUnprintable, Bool.or_eq_true, Bool.and_eq_true, decide_eq_true_eq] at unprintable
        rcases unprintable with ((⟨⟨control, -⟩, -⟩ | order) | mark) | mark
        · rw [bare.1.1.1] at control
          exact absurd control (by decide)
        · exact absurd order bare.2
        · exact .inl mark
        · exact .inr mark
      rcases mark with rfl | rfl
      · exact .inr (.inl (by decide))
      · exact .inr (.inl (by decide))
    next =>
      have different : ∀ entry ∈ shortEscapes, character ≠ entry.1 := by
        intro entry member same
        rw [same, List.lookup_eq_none_iff] at missing
        simpa using missing entry member
      refine .inr (.inr ⟨different ('\\', '\\') (by decide), different ('"', '"') (by decide),
        different ('\n', 'n') (by decide), rfl⟩)

theorem is_piece_of_form {character : Char} {written : List Char}
    (form : EscapeForm character written) : IsPiece written := by
  rcases form with ⟨letter, member, rfl⟩ | ⟨member, rfl⟩ | itself
  · exact is_piece_pair (letter_escapes_sound.1 _ member).1
  · exact is_piece_code member
  · rw [itself.2.2.2]
    exact is_piece_ordinary itself.1 itself.2.1 itself.2.2.1

/-- What is written for a character tells the character, whatever comes after it. -/
theorem escape_form_injective {left right : Char} {first second after before : List Char}
    (leftForm : EscapeForm left first) (rightForm : EscapeForm right second)
    (same : first ++ after = second ++ before) : left = right ∧ after = before := by
  rcases leftForm with ⟨letter, member, written⟩ | ⟨member, written⟩ | itself <;>
    rcases rightForm with ⟨other, within, wrote⟩ | ⟨within, wrote⟩ | self
  · rw [written, wrote] at same
    simp only [List.cons_append, List.nil_append, List.cons.injEq, true_and] at same
    exact ⟨letter_escapes_sound.2 _ member _ within same.1, same.2⟩
  · rw [written, wrote] at same
    simp only [List.cons_append, List.nil_append, List.cons.injEq, true_and] at same
    exact absurd same.1 (letter_escapes_sound.1 _ member).2
  · rw [written, self.2.2.2] at same
    exact absurd (List.cons.inj same).1.symm self.1
  · rw [written, wrote] at same
    simp only [List.cons_append, List.nil_append, List.cons.injEq, true_and] at same
    exact absurd same.1.symm (letter_escapes_sound.1 _ within).2
  · rw [written, wrote] at same
    simp only [List.cons_append, List.cons.injEq, true_and] at same
    have codesLeft := hexadecimal_codes _ member
    have codesRight := hexadecimal_codes _ within
    obtain ⟨digits, rest⟩ := List.append_inj same (codesLeft.1.trans codesRight.1.symm)
    have codes : some left.toNat = some right.toNat := by
      rw [← codesLeft.2.1, ← codesRight.2.1, digits]
    exact ⟨Char.toNat_inj.mp (Option.some.inj codes), rest⟩
  · rw [written, self.2.2.2] at same
    exact absurd (List.cons.inj same).1.symm self.1
  · rw [itself.2.2.2, wrote] at same
    exact absurd (List.cons.inj same).1 itself.1
  · rw [itself.2.2.2, wrote] at same
    exact absurd (List.cons.inj same).1 itself.1
  · rw [itself.2.2.2, self.2.2.2] at same
    exact List.cons.inj same

theorem escape_form_ne_nil {character : Char} {written : List Char}
    (form : EscapeForm character written) : written ≠ [] := by
  rcases form with ⟨letter, -, rfl⟩ | ⟨-, rfl⟩ | itself
  · simp
  · simp
  · simp [itself.2.2.2]

theorem escape_char_ne_nil (character : Char) : escapeChar character ≠ [] :=
  escape_form_ne_nil (escape_char_cases character)

/-- Texts that are written character by character are kept apart, if what is written for a character tells
the character. The two texts need not be written in the same way. -/
theorem written_text_injective {form : Char → List Char → Prop}
    (tells : ∀ {left right first second after before}, form left first → form right second →
      first ++ after = second ++ before → left = right ∧ after = before)
    (nonempty : ∀ {character written}, form character written → written ≠ [])
    {writeLeft writeRight : Char → List Char} {left right : List Char}
    (leftForms : ∀ character ∈ left, form character (writeLeft character))
    (rightForms : ∀ character ∈ right, form character (writeRight character))
    (same : left.flatMap writeLeft = right.flatMap writeRight) : left = right := by
  induction left generalizing right with
  | nil =>
      cases right with
      | nil => rfl
      | cons character rest =>
          have empty := (List.append_eq_nil_iff.mp same.symm).1
          exact absurd empty (nonempty (rightForms character (.head _)))
  | cons character rest ih =>
      obtain ⟨leftForm, leftLater⟩ := List.forall_mem_cons.mp leftForms
      cases right with
      | nil =>
          have empty := (List.append_eq_nil_iff.mp same).1
          exact absurd empty (nonempty leftForm)
      | cons other more =>
          obtain ⟨rightForm, rightLater⟩ := List.forall_mem_cons.mp rightForms
          obtain ⟨rfl, later⟩ := tells leftForm rightForm same
          rw [ih leftLater rightLater later]

/-- Double quotes keep texts apart, even where they are written in two ways. -/
theorem escaped_text_injective {escapeLeft escapeRight : Char → List Char} {left right : List Char}
    (leftForms : ∀ character ∈ left, EscapeForm character (escapeLeft character))
    (rightForms : ∀ character ∈ right, EscapeForm character (escapeRight character))
    (same : '"' :: (left.flatMap escapeLeft ++ ['"']) = '"' :: (right.flatMap escapeRight ++ ['"'])) :
    left = right := by
  have bodies : left.flatMap escapeLeft = right.flatMap escapeRight :=
    List.append_cancel_right (List.cons.inj same).2
  exact written_text_injective escape_form_injective escape_form_ne_nil leftForms rightForms bodies

theorem double_quoted_injective {left right : List Char}
    (same : doubleQuoted left = doubleQuoted right) : left = right :=
  escaped_text_injective (fun character _ => escape_char_cases character)
    (fun character _ => escape_char_cases character) same

def DoubledForm (character : Char) (written : List Char) : Prop :=
  (character = '\'' ∧ written = ['\'', '\'']) ∨ (character ≠ '\'' ∧ written = [character])

theorem doubled_form (character : Char) :
    DoubledForm character (if character = '\'' then ['\'', '\''] else [character]) := by
  by_cases quote : character = '\''
  · rw [if_pos quote]
    exact .inl ⟨quote, rfl⟩
  · rw [if_neg quote]
    exact .inr ⟨quote, rfl⟩

theorem doubled_form_injective {left right : Char} {first second after before : List Char}
    (leftForm : DoubledForm left first) (rightForm : DoubledForm right second)
    (same : first ++ after = second ++ before) : left = right ∧ after = before := by
  rcases leftForm with ⟨rfl, rfl⟩ | ⟨notQuote, rfl⟩ <;>
    rcases rightForm with ⟨rfl, rfl⟩ | ⟨notOther, rfl⟩
  · exact ⟨rfl, (List.cons.inj (List.cons.inj same).2).2⟩
  · exact absurd (List.cons.inj same).1.symm notOther
  · exact absurd (List.cons.inj same).1 notQuote
  · exact List.cons.inj same

theorem doubled_form_ne_nil {character : Char} {written : List Char}
    (form : DoubledForm character written) : written ≠ [] := by
  rcases form with ⟨-, rfl⟩ | ⟨-, rfl⟩ <;> simp

/-- Single quotes keep texts apart. -/
theorem single_quoted_injective {left right : List Char}
    (same : singleQuoted left = singleQuoted right) : left = right := by
  have bodies := List.append_cancel_right (List.cons.inj same).2
  exact written_text_injective doubled_form_injective doubled_form_ne_nil
    (fun character _ => doubled_form character) (fun character _ => doubled_form character) bodies

end TaskCab.Yaml
