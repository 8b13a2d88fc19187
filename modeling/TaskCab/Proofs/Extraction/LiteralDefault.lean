import TaskCab.Extraction
import TaskCab.Proofs.Value.CompactLiteral

/-!
# Defaults that are literals

The reader of signature defaults first looks for wrapped truth values and for `float` and `int` calls. In a
literal these could only stand inside a text, and there only in full. A literal whose texts do not speak of a
wrapped truth value is therefore decoded.
-/

namespace TaskCab.SignatureDefault

open TaskCab.Text TaskCab.Source

/-- The simple case folding of a character, as far as the letters of `bool`, `true` and `false` come of it. -/
def foldCase (character : Char) : Char := if character = 'ſ' then 's' else character.toLower

/-- Whether a text speaks of a wrapped truth value, in any letter case. -/
def mentionsBool (text : List Char) : Bool :=
  occurs "bool(true)".toList (text.map foldCase) || occurs "bool(false)".toList (text.map foldCase)

def isLetter (letter : Char) : Bool := "bool(truefas)".toList.contains letter

theorem matches_letter_iff {letter : Char} (alphabetic : isLetter letter = true) (character : Char) :
    matchesLetter letter character = decide (foldCase character = letter) := by
  unfold matchesLetter foldCase
  by_cases long : character = 'ſ'
  · have lower : character.toLower = 'ſ' := by rw [long]; rfl
    have notLong : letter ≠ 'ſ' := by
      rintro rfl
      simp [isLetter] at alphabetic
    simp [long, notLong.symm, eq_comm]
  · simp [long]

theorem after_word_iff (word : List Char) (letters : ∀ letter ∈ word, isLetter letter = true)
    (text : List Char) : (afterWord? word text).isSome = word.isPrefixOf (text.map foldCase) := by
  induction word generalizing text with
  | nil => simp [afterWord?]
  | cons letter word ih =>
      cases text with
      | nil => rfl
      | cons character text =>
          obtain ⟨first, later⟩ := List.forall_mem_cons.mp letters
          rw [afterWord?, matches_letter_iff first, List.map_cons, List.isPrefixOf, ← ih later]
          by_cases same : foldCase character = letter
          · simp [same]
          · simp [same, Ne.symm same]

theorem wrapped_bool_none_iff (text : List Char) :
    wrappedBool? text = none ↔
      "bool(true)".toList.isPrefixOf (text.map foldCase) = false ∧
        "bool(false)".toList.isPrefixOf (text.map foldCase) = false := by
  have trueWord := after_word_iff "bool(true)".toList (by decide) text
  have falseWord := after_word_iff "bool(false)".toList (by decide) text
  rw [← trueWord, ← falseWord, wrappedBool?]
  cases afterWord? "bool(true)".toList text with
  | none => simp
  | some rest => simp

theorem wrapped_bools_cons {character : Char} {rest : List Char}
    (none : wrappedBool? (character :: rest) = none) :
    wrappedBools 0 (character :: rest) = wrappedBools 0 rest := by
  rw [wrappedBools, none]

theorem wrapped_bools_plain {text : List Char} (plain : ∀ character ∈ text, foldCase character ≠ 'b')
    (after : List Char) : wrappedBools 0 (text ++ after) = wrappedBools 0 after := by
  induction text with
  | nil => rfl
  | cons character rest ih =>
      obtain ⟨first, later⟩ := List.forall_mem_cons.mp plain
      have none : wrappedBool? (character :: (rest ++ after)) = none := by
        rw [wrapped_bool_none_iff]
        simp [List.isPrefixOf, Ne.symm first]
      rw [List.cons_append, wrapped_bools_cons none, ih later]

/-! ## Strings -/

section

variable {quote : Char}

theorem prefix_of_escaped (isQuote : Quoted.IsQuote quote) {word : List Char}
    (letters : ∀ letter ∈ word, isLetter letter = true) {text after : List Char}
    (starts : word <+: (Quoted.escaped quote text ++ quote :: after).map foldCase) :
    word <+: text.map foldCase := by
  induction word generalizing text with
  | nil => exact List.nil_prefix
  | cons letter word ih =>
      obtain ⟨first, later⟩ := List.forall_mem_cons.mp letters
      have different {mark : Char} (marks : mark = '\\' ∨ Quoted.IsQuote mark) :
          letter ≠ foldCase mark := by
        rintro rfl
        rcases marks with rfl | rfl | rfl <;> exact absurd first (by decide)
      cases text with
      | nil => exact absurd (List.cons_prefix_cons.mp starts).1 (different (.inr isQuote))
      | cons character rest =>
          rw [Quoted.escaped_cons] at starts
          rcases Quoted.escape_char_cases isQuote character with ⟨escape, pair, -⟩ | ⟨itself, -⟩
          · rw [pair] at starts
            exact absurd (List.cons_prefix_cons.mp starts).1 (different (.inl rfl))
          · rw [itself] at starts
            obtain ⟨same, more⟩ := List.cons_prefix_cons.mp starts
            exact List.cons_prefix_cons.mpr ⟨same, ih later more⟩

theorem wrapped_bool_none_of_escaped (isQuote : Quoted.IsQuote quote) {text : List Char}
    (none : wrappedBool? text = none) (after : List Char) :
    wrappedBool? (Quoted.escaped quote text ++ quote :: after) = Option.none := by
  rw [wrapped_bool_none_iff] at none ⊢
  simp only [Bool.eq_false_iff, ne_eq, List.isPrefixOf_iff_prefix] at none ⊢
  exact ⟨fun starts => none.1 (prefix_of_escaped isQuote (by decide) starts),
    fun starts => none.2 (prefix_of_escaped isQuote (by decide) starts)⟩

theorem mentions_bool_cons {character : Char} {rest : List Char}
    (free : mentionsBool (character :: rest) = false) :
    wrappedBool? (character :: rest) = none ∧ mentionsBool rest = false := by
  rw [wrapped_bool_none_iff]
  simp only [mentionsBool, List.map_cons, occurs, Bool.or_eq_false_iff] at free ⊢
  exact ⟨⟨free.1.1, free.2.1⟩, free.1.2, free.2.2⟩

theorem escape_char_plain (isQuote : Quoted.IsQuote quote) (character : Char) :
    Value.escapeChar quote character = [character] ∨
      ∀ written ∈ Value.escapeChar quote character, foldCase written ≠ 'b' := by
  have quotes : ∀ written ∈ ['\\', quote], foldCase written ≠ 'b' := by
    rcases isQuote with rfl | rfl <;> decide
  unfold Value.escapeChar
  split
  · exact .inr (by decide)
  split
  · exact .inr (by decide)
  split
  · exact .inr (by decide)
  split
  · exact .inr (by decide)
  split
  next same => exact .inr (same ▸ quotes)
  next => exact .inl rfl

theorem wrapped_bools_escaped (isQuote : Quoted.IsQuote quote) {text : List Char}
    (free : mentionsBool text = false) (after : List Char) :
    wrappedBools 0 (Quoted.escaped quote text ++ quote :: after) = wrappedBools 0 after := by
  induction text with
  | nil =>
      have plain : ∀ character ∈ [quote], foldCase character ≠ 'b' := by
        rcases isQuote with rfl | rfl <;> decide
      exact wrapped_bools_plain plain after
  | cons character rest ih =>
      obtain ⟨none, later⟩ := mentions_bool_cons free
      rw [← ih later, Quoted.escaped_cons, List.append_assoc]
      rcases escape_char_plain isQuote character with itself | plain
      · have noMatch := wrapped_bool_none_of_escaped isQuote none after
        rw [Quoted.escaped_cons, itself] at noMatch
        rw [itself]
        exact wrapped_bools_cons noMatch
      · exact wrapped_bools_plain plain _

theorem wrapped_bools_text_literal {text : List Char} (free : mentionsBool text = false)
    (after : List Char) : wrappedBools 0 (Value.textLiteral text ++ after) = wrappedBools 0 after := by
  have isQuote := Quoted.is_quote_quote_for text
  have plain : ∀ character ∈ [Value.quoteFor text], foldCase character ≠ 'b' := by
    rcases isQuote with same | same <;> rw [same] <;> decide
  have front := wrapped_bools_plain plain
    (Quoted.escaped (Value.quoteFor text) text ++ Value.quoteFor text :: after)
  rw [← wrapped_bools_escaped isQuote free after, ← front, Quoted.text_literal_eq]
  simp

end

/-! ## Values -/

section

open TaskCab.Value

/-- Whether no wrapped truth value is found in a text, whatever comes after it. -/
def Unwrapped (text : List Char) : Prop := ∀ after, wrappedBools 0 (text ++ after) = wrappedBools 0 after

theorem unwrapped_of_plain {text : List Char} (plain : ∀ character ∈ text, foldCase character ≠ 'b') :
    Unwrapped text := wrapped_bools_plain plain

theorem unwrapped_append {left right : List Char} (first : Unwrapped left) (second : Unwrapped right) :
    Unwrapped (left ++ right) := by
  intro after
  rw [List.append_assoc, first, second]

theorem fold_case_of_digit {digit : Char} (isDigit : digit.isDigit = true) : foldCase digit = digit := by
  have notLong : digit ≠ 'ſ' := by
    rintro rfl
    exact absurd isDigit (by decide)
  have upper := (code_of_digit isDigit).2
  rw [foldCase, if_neg notLong]
  rcases to_lower_cases digit with same | ⟨capital, -⟩
  · exact same
  · omega

theorem unwrapped_number {text : List Char} (isNumberText : IsNumberText text) : Unwrapped text := by
  apply unwrapped_of_plain
  intro character member
  rcases isNumberText.2 character member with isDigit | mark
  · rw [fold_case_of_digit isDigit]
    rintro rfl
    exact absurd isDigit (by decide)
  · exact (by decide : ∀ c ∈ ".e+-naif".toList, foldCase c ≠ 'b') character mark

theorem unwrapped_enclose {opening closing : Char} {texts : List (List Char)}
    (brackets : (opening, closing) = ('[', ']') ∨ (opening, closing) = ('\x7b', '\x7d'))
    (unwrapped : ∀ text ∈ texts, Unwrapped text) : Unwrapped (enclose opening closing texts) := by
  have bracket : Unwrapped [opening] ∧ Unwrapped [closing] := by
    rcases brackets with same | same <;> cases same <;>
      exact ⟨unwrapped_of_plain (by decide), unwrapped_of_plain (by decide)⟩
  have separator : Unwrapped [',', ' '] := unwrapped_of_plain (by decide)
  have joined : Unwrapped (joinWith [',', ' '] texts) := by
    cases texts with
    | nil => exact unwrapped_of_plain (by simp [joinWith])
    | cons text rest =>
        obtain ⟨first, later⟩ := List.forall_mem_cons.mp unwrapped
        rw [join_with_cons]
        apply unwrapped_append first
        clear unwrapped first
        induction rest with
        | nil => exact unwrapped_of_plain (by simp)
        | cons next rest ih =>
            obtain ⟨second, others⟩ := List.forall_mem_cons.mp later
            exact unwrapped_append (unwrapped_append separator second) (ih others)
  exact unwrapped_append (unwrapped_append bracket.1 joined) bracket.2

mutual

theorem unwrapped_literal {value : Value} (free : ∀ text ∈ texts value, mentionsBool text.toList = false) :
    Unwrapped (literal value) := by
  match value with
  | .null => exact unwrapped_of_plain (by decide)
  | .bool true => exact unwrapped_of_plain (by decide)
  | .bool false => exact unwrapped_of_plain (by decide)
  | .int word => exact unwrapped_number (int_is_number_text word.toInt)
  | .float number => exact unwrapped_number (float_is_number_text number)
  | .str text => exact wrapped_bools_text_literal (free text (by simp [texts]))
  | .list items => exact unwrapped_enclose (.inl rfl) (unwrapped_items free)
  | .map entries => exact unwrapped_enclose (.inr rfl) (unwrapped_entries free)

theorem unwrapped_items {items : List Value}
    (free : ∀ text ∈ itemTexts items, mentionsBool text.toList = false) :
    ∀ text ∈ itemLiterals items, Unwrapped text := by
  match items with
  | [] => exact fun _ member => absurd member List.not_mem_nil
  | item :: rest =>
      obtain ⟨first, later⟩ := List.forall_mem_append.mp free
      exact List.forall_mem_cons.mpr ⟨unwrapped_literal first, unwrapped_items later⟩

theorem unwrapped_entries {entries : List (String × Value)}
    (free : ∀ text ∈ entryTexts entries, mentionsBool text.toList = false) :
    ∀ text ∈ entryLiterals entries, Unwrapped text := by
  match entries with
  | [] => exact fun _ member => absurd member List.not_mem_nil
  | (key, value) :: rest =>
      obtain ⟨name, more⟩ := List.forall_mem_cons.mp free
      obtain ⟨first, later⟩ := List.forall_mem_append.mp more
      have colon : Unwrapped [':', ' '] := unwrapped_of_plain (by decide)
      have entry := unwrapped_append (wrapped_bools_text_literal name)
        (unwrapped_append colon (unwrapped_literal first))
      exact List.forall_mem_cons.mpr ⟨entry, unwrapped_entries later⟩

end

theorem argument_none {name : String} {text : List Char} (differs : ¬name.toList ++ ['('] <+: text) :
    argument? name text = none := by
  unfold argument?
  cases found : afterStart? (name.toList ++ ['(']) text with
  | none => rfl
  | some rest => exact absurd ⟨rest, ((after_start_iff _ _ _).mp found).symm⟩ differs

theorem argument_literal {name : String} (isName : name = "float" ∨ name = "int") (value : Value) :
    argument? name (literal value) = none := by
  have numeral {text : List Char} (isNumberText : IsNumberText text) : argument? name text = none := by
    apply argument_none
    intro starts
    have round : '(' ∈ text := starts.subset (by simp)
    exact absurd (isNumberText.2 '(' round) (by decide)
  cases value with
  | null => rcases isName with rfl | rfl <;> rfl
  | bool truth => cases truth <;> rcases isName with rfl | rfl <;> rfl
  | int word => exact numeral (int_is_number_text word.toInt)
  | float number => exact numeral (float_is_number_text number)
  | str text =>
      have isQuote := Quoted.is_quote_quote_for text.toList
      apply argument_none
      rw [literal, Quoted.text_literal_eq]
      generalize quoteFor text.toList = quote at isQuote
      rcases isQuote with rfl | rfl <;> rcases isName with rfl | rfl <;>
        exact fun starts => absurd (List.cons_prefix_cons.mp starts).1 (by decide)
  | list items => rcases isName with rfl | rfl <;> rfl
  | map entries => rcases isName with rfl | rfl <;> rfl

/-- The default that a value stands for: `None` is no default. -/
def given? : Value → Option SourceValue
  | .null => none
  | value => some (.decoded value)

/-- The reader of signature defaults decodes the literal of a value that can be read back, if no text in it
holds a null character or speaks of a wrapped truth value. -/
theorem read_literal_default {value : Value} (distinct : Distinct value)
    (noNull : ∀ text ∈ texts value, '\x00' ∉ text.toList)
    (free : ∀ text ∈ texts value, mentionsBool text.toList = false) (readable : readable value = true) :
    read (literal value) = given? value := by
  have noBools : wrappedBools 0 (literal value) = [] := by
    have unwrapped := unwrapped_literal free []
    rwa [List.append_nil] at unwrapped
  have decoded : Literal.decode (literal value) = .decoded value := by
    rw [Literal.decode, read_literal distinct noNull, readable]
    rfl
  have noFloat : wrappedFloat? (literal value) = none := by
    rw [wrappedFloat?, argument_literal (.inl rfl)]
    rfl
  have noInt : wrappedInt? (literal value) = none := by
    rw [wrappedInt?, argument_literal (.inr rfl)]
    rfl
  unfold read
  rw [trim_of_framed (framed_literal value)]
  simp only [noBools, noFloat, noInt, decoded]
  cases value <;> rfl

end

end TaskCab.SignatureDefault
