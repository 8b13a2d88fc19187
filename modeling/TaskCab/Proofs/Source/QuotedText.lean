import Mathlib.Data.List.Basic
import TaskCab.Source.Lexeme
import TaskCab.Value

/-!
# The literal of a text

The literal of a text ends where it was written to end, whatever follows that is no quote, and stands
for the text again. The null character is the one that no literal can hold.
-/

namespace TaskCab.Source.Quoted

open TaskCab.Text

def plainStyle (quote : Char) : Style := ⟨false, false, false, quote, false⟩

def escaped (quote : Char) (text : List Char) : List Char := text.flatMap (Value.escapeChar quote)

def IsQuote (quote : Char) : Prop := quote = '\'' ∨ quote = '"'

theorem is_quote_quote_for (text : List Char) : IsQuote (Value.quoteFor text) := by
  unfold Value.quoteFor
  split
  · exact .inr rfl
  · exact .inl rfl

theorem text_literal_eq (text : List Char) :
    Value.textLiteral text =
      Value.quoteFor text :: (escaped (Value.quoteFor text) text ++ [Value.quoteFor text]) := rfl

/-- A character is written as an escape of one letter, which means it, or as itself, which is neither a
backslash, a line feed nor the quote. -/
theorem escape_char_cases {quote : Char} (isQuote : IsQuote quote) (character : Char) :
    (∃ letter, Value.escapeChar quote character = ['\\', letter] ∧
      (∀ rest, escapeLength (letter :: rest) = 1) ∧
      ∀ rest, escapeMeaning (letter :: rest) = ([character], 1)) ∨
    (Value.escapeChar quote character = [character] ∧
      character ≠ '\\' ∧ character ≠ '\n' ∧ character ≠ quote) := by
  unfold Value.escapeChar
  by_cases backslash : character = '\\'
  · exact .inl ⟨'\\', by simp [backslash], fun _ => rfl, fun _ => by rw [backslash]; rfl⟩
  by_cases newline : character = '\n'
  · exact .inl ⟨'n', by simp [newline], fun _ => rfl, fun _ => by rw [newline]; rfl⟩
  by_cases tab : character = '\t'
  · exact .inl ⟨'t', by simp [tab], fun _ => rfl, fun _ => by rw [tab]; rfl⟩
  by_cases carriage : character = '\r'
  · exact .inl ⟨'r', by simp [carriage], fun _ => rfl, fun _ => by rw [carriage]; rfl⟩
  by_cases same : character = quote
  · refine .inl ⟨character, by rw [if_neg backslash, if_neg newline, if_neg tab, if_neg carriage,
      if_pos same], ?_, ?_⟩
    all_goals
      rw [same]
      rcases isQuote with rfl | rfl <;> exact fun _ => rfl
  · exact .inr ⟨by simp [backslash, newline, tab, carriage, same], backslash, newline, same⟩

theorem escaped_cons (quote character : Char) (text : List Char) :
    escaped quote (character :: text) = Value.escapeChar quote character ++ escaped quote text := rfl

theorem closes_plain (quote character : Char) (rest : List Char) :
    closes (plainStyle quote) (character :: rest) = (quote == character) := by
  simp [closes, plainStyle, List.isPrefixOf]

theorem quote_ne_backslash {quote : Char} (isQuote : IsQuote quote) : quote ≠ '\\' := by
  rcases isQuote with rfl | rfl <;> decide

theorem quote_ne_null {quote : Char} (isQuote : IsQuote quote) : quote ≠ '\x00' := by
  rcases isQuote with rfl | rfl <;> decide

theorem closing_from_escaped {quote : Char} (isQuote : IsQuote quote) {text : List Char}
    (noNull : '\x00' ∉ text) (plain : Bool) (after : List Char) :
    closingFrom? (plainStyle quote) plain 0 (escaped quote text ++ quote :: after) =
      some ((escaped quote text).length + 1) := by
  induction text generalizing plain with
  | nil =>
      simp [escaped, closingFrom?, quote_ne_backslash isQuote, quote_ne_null isQuote,
        closes_plain]
      rfl
  | cons character rest ih =>
      have later := ih fun member => noNull (.tail _ member)
      rw [escaped_cons]
      rcases escape_char_cases isQuote character with ⟨letter, written, length, -⟩ | itself
      · have one (after : List Char) : backslashLength (plainStyle quote) (letter :: after) = 1 := by
          simp [backslashLength, plainStyle, length]
        rw [written]
        simp only [List.cons_append, List.nil_append, List.length_cons]
        simp [closingFrom?, one, later]
      · have notNull : character ≠ '\x00' := fun same => noNull (same ▸ .head _)
        rw [itself.1]
        simp only [List.cons_append, List.nil_append, List.length_cons]
        simp [closingFrom?, closes_plain, notNull, itself.2.1, itself.2.2.1,
          itself.2.2.2.symm, later]

theorem unescape_from_escaped {quote : Char} (isQuote : IsQuote quote) (text : List Char) :
    unescapeFrom 0 (escaped quote text) = text := by
  induction text with
  | nil => rfl
  | cons character rest ih =>
      rw [escaped_cons]
      rcases escape_char_cases isQuote character with ⟨letter, written, -, meaning⟩ | itself
      · rw [written]
        simp [unescapeFrom, meaning, ih]
      · rw [itself.1]
        simp [unescapeFrom, itself.2.1, ih]

theorem escaped_starts {quote : Char} (isQuote : IsQuote quote) (character : Char)
    (text : List Char) :
    ∃ front rest, escaped quote (character :: text) = front :: rest ∧ front ≠ quote := by
  rw [escaped_cons]
  rcases escape_char_cases isQuote character with ⟨letter, written, -⟩ | itself
  · exact ⟨'\\', _, by rw [written]; rfl, (quote_ne_backslash isQuote).symm⟩
  · exact ⟨character, _, by rw [itself.1]; rfl, itself.2.2.2⟩

theorem opening_text_literal {quote : Char} (isQuote : IsQuote quote) (text : List Char)
    {after : List Char} (notQuote : after.head? ≠ some quote) :
    opening? (quote :: (escaped quote text ++ quote :: after)) = some (plainStyle quote, 1) := by
  have notTriple : [quote, quote].isPrefixOf (escaped quote text ++ quote :: after) = false := by
    cases text with
    | nil =>
        cases after with
        | nil => simp [escaped]
        | cons first rest =>
            have different : quote ≠ first := fun same => notQuote (by simp [same])
            simp [escaped, different, List.isPrefixOf]
    | cons character rest =>
        obtain ⟨front, more, starts, different⟩ := escaped_starts isQuote character rest
        simp [starts, different.symm, List.isPrefixOf]
  have noFlags : (quote :: (escaped quote text ++ quote :: after)).takeWhile isFlag = [] := by
    rcases isQuote with rfl | rfl <;> rfl
  have mark : isMark quote = true := by
    rcases isQuote with rfl | rfl <;> rfl
  rw [opening?, noFlags]
  simp [mark, notTriple, plainStyle]

/-- A literal ends at its own quote. -/
theorem length_text_literal {text : List Char} (noNull : '\x00' ∉ text) {after : List Char}
    (notQuote : ∀ quote, IsQuote quote → after.head? ≠ some quote) :
    length? (Value.textLiteral text ++ after) = some (Value.textLiteral text).length := by
  have isQuote := is_quote_quote_for text
  have opening := opening_text_literal isQuote text (notQuote _ isQuote)
  have closing := closing_from_escaped isQuote noNull false after
  rw [text_literal_eq, List.cons_append, List.append_assoc, List.singleton_append, length?, opening]
  simp [plainStyle] at closing ⊢
  rw [closing]
  simp [Nat.add_comm]

theorem trim_text_literal (text : List Char) :
    trim (Value.textLiteral text) = Value.textLiteral text := by
  have notBlank : isBlank (Value.quoteFor text) = false := by
    rcases is_quote_quote_for text with same | same <;> rw [same] <;> rfl
  rw [text_literal_eq, trim, trimStart, List.dropWhile_cons_of_neg (by simp [notBlank]), trimEnd]
  simp [notBlank]

/-- A literal stands for the text that it was written for. -/
theorem text_text_literal (text : List Char) :
    text? (Value.textLiteral text) = some text := by
  have isQuote := is_quote_quote_for text
  have notTriple : [Value.quoteFor text, Value.quoteFor text, Value.quoteFor text].isPrefixOf
      (Value.textLiteral text) = false := by
    rw [text_literal_eq]
    generalize Value.quoteFor text = quote at isQuote
    cases text with
    | nil => simp [escaped]
    | cons character rest =>
        obtain ⟨front, more, starts, different⟩ := escaped_starts isQuote character rest
        simp [starts, different.symm, List.isPrefixOf]
  have noFlags : (Value.textLiteral text).takeWhile (fun c => c ≠ '\'' && c ≠ '"') = [] := by
    rw [text_literal_eq]
    rcases isQuote with same | same <;> rw [same] <;> rfl
  have inside : inside? [Value.quoteFor text] (Value.textLiteral text) =
      some (escaped (Value.quoteFor text) text) := by
    rw [text_literal_eq, inside?]
    have suffix : [Value.quoteFor text].isSuffixOf
        (Value.quoteFor text :: (escaped (Value.quoteFor text) text ++ [Value.quoteFor text])) =
          true := by
      rw [List.isSuffixOf_iff_suffix, ← List.cons_append]
      exact List.suffix_append _ _
    simp [suffix]
  rw [text?, trim_text_literal]
  dsimp only
  rw [noFlags]
  have mark : (Value.textLiteral text).head? = some (Value.quoteFor text) := rfl
  simp only [List.length_nil, List.drop_zero, mark, notTriple, Bool.false_eq_true, if_false, inside,
    Option.bind_eq_bind, Option.bind_some, List.map_nil, List.all_nil, if_true]
  simp [unescape, unescape_from_escaped isQuote]

end TaskCab.Source.Quoted
