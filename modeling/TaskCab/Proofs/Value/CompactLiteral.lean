import TaskCab.Proofs.Source.Compaction
import TaskCab.Proofs.Source.QuotedText
import TaskCab.Proofs.Text.Joined
import TaskCab.Proofs.Value.RoundTrip

/-!
# Literals are compact

Compaction copies the literal of a value: a space stands only behind a comma or a colon in it, and strings
are copied in any case.
-/

namespace TaskCab.Value

open TaskCab.Source TaskCab.Source.Compact

/-- A place behind a value: in code, or behind two marks that may open a literal of three. -/
def IsBehind (place : Compact.Place) : Prop :=
  place = .code ∨ ∃ mark, isMark mark = true ∧ place = .openedTwice mark

/-- Whether a text that starts in code is copied, with a separator in front of it. -/
def Copied (text : List Char) : Prop :=
  ∀ progress : Progress, progress.place = .code → ∃ place, IsBehind place ∧
    text.foldl step progress =
      ⟨place, false, false, text.reverse ++ (separator progress ++ progress.written)⟩

/-- Behind a value, a character that is no mark is read as code. -/
theorem step_behind {place : Compact.Place} (behind : IsBehind place) {character : Char}
    (noMark : isMark character = false) (written : List Char) :
    step ⟨place, false, false, written⟩ character =
      codeStep ⟨.code, false, false, written⟩ character := by
  rcases behind with rfl | ⟨mark, marks, rfl⟩
  · rfl
  · have different : character ≠ mark := by
      rintro rfl
      simp [marks] at noMark
    simp only [step, if_neg different]
    rfl

theorem copied_ordinary {text : List Char} (nonempty : text ≠ [])
    (ordinary : ∀ character ∈ text, isOrdinary character = true) : Copied text := by
  intro progress code
  obtain ⟨first, rest, rfl⟩ := List.exists_cons_of_ne_nil nonempty
  have start : step progress first =
      ⟨.code, false, false, first :: (separator progress ++ progress.written)⟩ := by
    simp only [step, code]
    exact code_step_ordinary progress (ordinary first (.head _))
  refine ⟨.code, .inl rfl, ?_⟩
  rw [List.foldl_cons, start, foldl_ordinary fun c member => ordinary c (.tail _ member)]
  simp

theorem copied_number {text : List Char} (isNumberText : IsNumberText text) : Copied text := by
  apply copied_ordinary isNumberText.1
  intro character member
  have isNumber := isNumberText.2 character member
  have visible := Text.not_blank_of_is_graphic (graphic_of_number_char isNumber)
  have inside : Lexeme.inNumber character = true := by
    rcases isNumber with isDigit | mark
    · simp [Lexeme.inNumber, Lexeme.isWordPart, isDigit]
    · exact (by decide : ∀ c ∈ ".e+-naif".toList, Lexeme.inNumber c = true) character mark
  exact (ordinary_in_number inside visible).1

/-! ## Strings -/

/-- The body of a string is copied up to its closing quote. -/
theorem foldl_escaped {quote : Char} (isQuote : Quoted.IsQuote quote) (text written : List Char) :
    (Quoted.escaped quote text).foldl step ⟨.literal quote false 0, false, false, written⟩ =
      ⟨.literal quote false 0, false, false, (Quoted.escaped quote text).reverse ++ written⟩ := by
  induction text generalizing written with
  | nil => rfl
  | cons character rest ih =>
      rw [Quoted.escaped_cons, List.foldl_append]
      rcases Quoted.escape_char_cases isQuote character with
        ⟨letter, pair, -⟩ | ⟨itself, notBackslash, -, notQuote⟩
      · have two : [('\\'), letter].foldl step ⟨.literal quote false 0, false, false, written⟩ =
            ⟨.literal quote false 0, false, false, letter :: '\\' :: written⟩ := by
          simp [step, literalPlace]
        rw [pair, two, ih]
        simp
      · have one : [character].foldl step ⟨.literal quote false 0, false, false, written⟩ =
            ⟨.literal quote false 0, false, false, character :: written⟩ := by
          simp [step, literalPlace, notBackslash, notQuote]
        rw [itself, one, ih]
        simp

theorem copied_text_literal (text : List Char) : Copied (textLiteral text) := by
  intro progress code
  have isQuote := Quoted.is_quote_quote_for text
  rw [Quoted.text_literal_eq]
  generalize quoteFor text = quote at isQuote ⊢
  have marks : isMark quote = true := by
    rcases isQuote with rfl | rfl <;> rfl
  have opened : step progress quote =
      ⟨.opened quote, false, false, quote :: (separator progress ++ progress.written)⟩ := by
    simp only [step, code]
    rcases isQuote with rfl | rfl <;> rfl
  rw [List.foldl_cons, opened, List.foldl_append]
  generalize separator progress ++ progress.written = written
  have closed (written : List Char) :
      [quote].foldl step ⟨.literal quote false 0, false, false, written⟩ =
        ⟨.code, false, false, quote :: written⟩ := by
    rcases isQuote with rfl | rfl <;> rfl
  cases text with
  | nil =>
      refine ⟨.openedTwice quote, .inr ⟨quote, marks, rfl⟩, ?_⟩
      simp [Quoted.escaped, step]
  | cons character rest =>
      refine ⟨.code, .inl rfl, ?_⟩
      have first : (Quoted.escaped quote (character :: rest)).foldl step
          ⟨.opened quote, false, false, quote :: written⟩ =
          (Quoted.escaped quote (character :: rest)).foldl step
            ⟨.literal quote false 0, false, false, quote :: written⟩ := by
        rw [Quoted.escaped_cons, List.foldl_append, List.foldl_append]
        congr 1
        rcases Quoted.escape_char_cases isQuote character with
          ⟨letter, pair, -⟩ | ⟨itself, notBackslash, -, notQuote⟩
        · have notQuote := (Quoted.quote_ne_backslash isQuote).symm
          simp [pair, step, notQuote]
        · simp [itself, step, notQuote]
      rw [first, foldl_escaped isQuote, closed]
      simp

/-! ## Collections -/

/-- Texts behind commas are copied where a value stands in front of them. -/
theorem foldl_tail {texts : List (List Char)} (copied : ∀ text ∈ texts, Copied text) {place : Compact.Place}
    (behind : IsBehind place) (written : List Char) :
    ∃ after, IsBehind after ∧
      (texts.flatMap fun text => ',' :: ' ' :: text).foldl step ⟨place, false, false, written⟩ =
        ⟨after, false, false, (texts.flatMap fun text => ',' :: ' ' :: text).reverse ++ written⟩ := by
  induction texts generalizing place written with
  | nil => exact ⟨place, behind, rfl⟩
  | cons text rest ih =>
      obtain ⟨first, later⟩ := List.forall_mem_cons.mp copied
      have comma : step (step ⟨place, false, false, written⟩ ',') ' ' =
          ⟨.code, true, true, ',' :: written⟩ := by
        rw [step_behind behind rfl]
        rfl
      obtain ⟨between, isBehind, same⟩ := first ⟨.code, true, true, ',' :: written⟩ rfl
      obtain ⟨after, ends, whole⟩ := ih later isBehind
        (text.reverse ++ (separator ⟨.code, true, true, ',' :: written⟩ ++ ',' :: written))
      refine ⟨after, ends, ?_⟩
      rw [List.flatMap_cons, List.foldl_append, List.foldl_cons, List.foldl_cons, comma, same, whole]
      simp [separator]

theorem copied_enclose {opening closing : Char} {texts : List (List Char)}
    (brackets : (opening, closing) = ('[', ']') ∨ (opening, closing) = ('\x7b', '\x7d'))
    (copied : ∀ text ∈ texts, Copied text) : Copied (enclose opening closing texts) := by
  intro progress code
  have opened : step progress opening =
      ⟨.code, false, false, opening :: (separator progress ++ progress.written)⟩ := by
    simp only [step, code]
    rcases brackets with same | same <;> cases same <;> rfl
  have closed {place : Compact.Place} (behind : IsBehind place) (written : List Char) :
      [closing].foldl step ⟨place, false, false, written⟩ =
        ⟨.code, false, false, closing :: written⟩ := by
    have noMark : isMark closing = false := by
      rcases brackets with same | same <;> cases same <;> rfl
    rw [List.foldl_cons, step_behind behind noMark]
    rcases brackets with same | same <;> cases same <;> rfl
  refine ⟨.code, .inl rfl, ?_⟩
  rw [enclose, List.cons_append, List.foldl_cons, opened, List.foldl_append]
  generalize separator progress ++ progress.written = written
  cases texts with
  | nil =>
      have inside := closed (.inl rfl) (opening :: written)
      simpa [Text.joinWith] using inside
  | cons text rest =>
      obtain ⟨first, later⟩ := List.forall_mem_cons.mp copied
      obtain ⟨between, isBehind, same⟩ := first ⟨.code, false, false, opening :: written⟩ rfl
      obtain ⟨after, ends, whole⟩ := foldl_tail later isBehind
        (text.reverse ++ (separator ⟨.code, false, false, opening :: written⟩ ++ opening :: written))
      rw [Text.join_with_cons, List.foldl_append, same]
      have tail : (rest.flatMap ([',', ' '] ++ ·)) = rest.flatMap fun text => ',' :: ' ' :: text := rfl
      rw [tail, whole, closed ends]
      simp [separator]

theorem copied_entry (key : String) {text : List Char} (copied : Copied text) :
    Copied (textLiteral key.toList ++ ':' :: ' ' :: text) := by
  intro progress code
  obtain ⟨between, isBehind, same⟩ := copied_text_literal key.toList progress code
  generalize separator progress ++ progress.written = written at same ⊢
  have colon (written : List Char) : step (step ⟨between, false, false, written⟩ ':') ' ' =
      ⟨.code, true, false, ':' :: written⟩ := by
    rw [step_behind isBehind rfl]
    rfl
  obtain ⟨after, ends, whole⟩ := copied
    ⟨.code, true, false, ':' :: ((textLiteral key.toList).reverse ++ written)⟩ rfl
  refine ⟨after, ends, ?_⟩
  rw [List.foldl_append, same, List.foldl_cons, List.foldl_cons, colon, whole]
  simp [separator, isOpening]

mutual

theorem copied_literal (value : Value) : Copied (literal value) := by
  match value with
  | null => exact copied_ordinary (List.cons_ne_nil 'N' _) (by decide)
  | bool true => exact copied_ordinary (List.cons_ne_nil 'T' _) (by decide)
  | bool false => exact copied_ordinary (List.cons_ne_nil 'F' _) (by decide)
  | int word => exact copied_number (int_is_number_text word.toInt)
  | float number => exact copied_number (float_is_number_text number)
  | str text => exact copied_text_literal text.toList
  | list items => exact copied_enclose (.inl rfl) (copied_items items)
  | map entries => exact copied_enclose (.inr rfl) (copied_entries entries)

theorem copied_items (items : List Value) : ∀ text ∈ itemLiterals items, Copied text := by
  match items with
  | [] => exact fun _ member => absurd member List.not_mem_nil
  | item :: rest => exact List.forall_mem_cons.mpr ⟨copied_literal item, copied_items rest⟩

theorem copied_entries (entries : List (String × Value)) :
    ∀ text ∈ entryLiterals entries, Copied text := by
  match entries with
  | [] => exact fun _ member => absurd member List.not_mem_nil
  | (key, value) :: rest =>
      exact List.forall_mem_cons.mpr
        ⟨copied_entry key (copied_literal value), copied_entries rest⟩

end

/-- Compaction leaves the literal of a value as it is. -/
theorem compact_literal (value : Value) : Compact.text (literal value) = literal value := by
  obtain ⟨place, -, copied⟩ := copied_literal value start rfl
  rw [Compact.text, Text.trim_of_framed (framed_literal value), copied]
  simp [start, separator]

end TaskCab.Value
