import TaskCab.Proofs.Source.LiteralBody
import TaskCab.Proofs.Source.NumberTokens

/-!
# Ways to spell a text

In a literal that is not raw a character may stand as itself, as an escape of one letter, or as the digits
of its code, and a line may be continued between any two characters. However a text is spelled, the literal
stands for it: an escape has a fixed number of digits, so that it does not reach into what follows.
-/

namespace TaskCab.Source.Quoted

open TaskCab.Text

def letterEscapes : List (Char × Char) :=
  [('n', '\n'), ('t', '\t'), ('r', '\r'), ('a', '\x07'), ('b', '\x08'), ('f', '\x0c'), ('v', '\x0b')]

def hexEscapes : List (Char × Nat) := [('x', 2), ('u', 4), ('U', 8)]

/-- The ways to spell a character between quotes of a mark. Line feeds stand as themselves between triple
quotes alone. -/
inductive Spells (mark : Char) (triple : Bool) : Char → List Char → Prop
  | itself {character : Char} (notBackslash : character ≠ '\\') (notMark : character ≠ mark)
      (onLine : character = '\n' → triple = true) : Spells mark triple character [character]
  | letter {letter character : Char} (listed : (letter, character) ∈ letterEscapes) :
      Spells mark triple character ['\\', letter]
  | escaped {character : Char} (listed : character ∈ ['\\', '\'', '"']) :
      Spells mark triple character ['\\', character]
  | hexadecimal {letter character : Char} {width : Nat} (listed : (letter, width) ∈ hexEscapes)
      {digits : List (WrittenDigit 16)} (length : digits.length = width)
      (code : WrittenDigit.number digits = character.toNat) :
      Spells mark triple character ('\\' :: letter :: digits.map WrittenDigit.character)
  | octal {character : Char} {digits : List (WrittenDigit 8)} (length : digits.length = 3)
      (code : WrittenDigit.number digits = character.toNat) :
      Spells mark triple character ('\\' :: digits.map WrittenDigit.character)

inductive SpellsText (mark : Char) (triple : Bool) : List Char → List Char → Prop
  | nil : SpellsText mark triple [] []
  | continued {text body : List Char} (spelled : SpellsText mark triple text body) :
      SpellsText mark triple text ('\\' :: '\n' :: body)
  | cons {character : Char} {written text body : List Char} (first : Spells mark triple character written)
      (rest : SpellsText mark triple text body) :
      SpellsText mark triple (character :: text) (written ++ body)

/-! ## Escapes in front of any text -/

theorem unescape_skipped (skipped rest : List Char) :
    unescapeFrom skipped.length (skipped ++ rest) = unescapeFrom 0 rest := by
  induction skipped with
  | nil => rfl
  | cons character skipped ih =>
      rw [List.length_cons, List.cons_append, unescapeFrom, ih]

theorem unescape_escape {escape rest meaning : List Char}
    (means : escapeMeaning (escape ++ rest) = (meaning, escape.length)) :
    unescapeFrom 0 ('\\' :: (escape ++ rest)) = meaning ++ unescapeFrom 0 rest := by
  rw [unescapeFrom, if_pos rfl, means]
  exact congrArg (meaning ++ ·) (unescape_skipped escape rest)

theorem char_of_code (character : Char) : char? character.toNat = some character := by
  have valid : character.toNat.isValidChar := character.valid
  rw [char?, if_pos valid, Char.ofNat_toNat]

theorem code_of_digits {radix : Nat} (small : radix ≤ 16) {digits : List (WrittenDigit radix)}
    {character : Char} (code : WrittenDigit.number digits = character.toNat) :
    (Integer.readDigits? radix 0 (digits.map WrittenDigit.character)).bind char? = some character := by
  rw [WrittenDigit.read_digits fun digit => (WrittenDigit.digit_value small digit).1]
  change char? (WrittenDigit.number digits) = some character
  rw [code, char_of_code]

theorem digits_taken {belongs : Char → Bool} {digits rest : List Char}
    (all : ∀ digit ∈ digits, belongs digit = true) :
    ((digits ++ rest).take digits.length).takeWhile belongs = digits := by
  rw [List.take_left, List.takeWhile_eq_self_iff.mpr all]

theorem is_digit_of_written {radix : Nat} (small : radix ≤ 16) (digits : List (WrittenDigit radix)) :
    ∀ character ∈ digits.map WrittenDigit.character,
      (Integer.digitValue? radix character).isSome = true := by
  intro character member
  obtain ⟨digit, -, rfl⟩ := List.mem_map.mp member
  rw [(WrittenDigit.digit_value small digit).1]
  rfl

theorem hex_meaning_digits {digits : List (WrittenDigit 16)} {character : Char}
    (code : WrittenDigit.number digits = character.toNat) (letter : Char) (rest : List Char) :
    hexMeaning letter digits.length (digits.map WrittenDigit.character ++ rest) =
      ([character], digits.length + 1) := by
  have taken := @digits_taken isHexDigit _ rest (is_digit_of_written (by decide) digits)
  rw [List.length_map] at taken
  rw [hexMeaning, taken, List.length_map, if_pos rfl, code_of_digits (by decide) code]

theorem octal_meaning_digits {digits : List (WrittenDigit 8)} {character : Char}
    (length : digits.length = 3) (code : WrittenDigit.number digits = character.toNat) (rest : List Char) :
    octalMeaning (digits.map WrittenDigit.character ++ rest) = ([character], 3) := by
  have taken := @digits_taken isOctalDigit _ rest (is_digit_of_written (by decide) digits)
  rw [List.length_map, length] at taken
  rw [octalMeaning, taken, List.length_map, length, code_of_digits (by decide) code]
  rfl

theorem escape_meaning_octal {letter : Char} (isOctal : isOctalDigit letter = true) (rest : List Char) :
    escapeMeaning (letter :: rest) = octalMeaning (letter :: rest) := by
  have differs {other : Char} (notOctal : isOctalDigit other = false) : letter ≠ other := by
    rintro rfl
    rw [isOctal] at notOctal
    cases notOctal
  simp [escapeMeaning, isOctal, @differs '\n' rfl, @differs '\\' rfl, @differs '\'' rfl, @differs '"' rfl,
    @differs 'n' rfl, @differs 't' rfl, @differs 'r' rfl, @differs 'a' rfl, @differs 'b' rfl,
    @differs 'f' rfl, @differs 'v' rfl]

theorem escape_meaning_letter {letter character : Char} (listed : (letter, character) ∈ letterEscapes)
    (rest : List Char) : escapeMeaning (letter :: rest) = ([character], 1) := by
  simp only [letterEscapes, List.mem_cons, Prod.mk.injEq, List.not_mem_nil, or_false] at listed
  rcases listed with ⟨rfl, rfl⟩ | ⟨rfl, rfl⟩ | ⟨rfl, rfl⟩ | ⟨rfl, rfl⟩ | ⟨rfl, rfl⟩ | ⟨rfl, rfl⟩ |
    ⟨rfl, rfl⟩ <;> rfl

theorem escape_meaning_hex {letter : Char} {width : Nat} (listed : (letter, width) ∈ hexEscapes)
    (rest : List Char) : escapeMeaning (letter :: rest) = hexMeaning letter width rest := by
  simp only [hexEscapes, List.mem_cons, Prod.mk.injEq, List.not_mem_nil, or_false] at listed
  rcases listed with ⟨rfl, rfl⟩ | ⟨rfl, rfl⟩ | ⟨rfl, rfl⟩ <;> rfl

/-! ## Reading what was spelled -/

variable {mark : Char} {triple : Bool}

/-- A spelled character is read as that character, whatever comes after it. -/
theorem unescape_spelled {character : Char} {written : List Char}
    (spelled : Spells mark triple character written) (rest : List Char) :
    unescapeFrom 0 (written ++ rest) = character :: unescapeFrom 0 rest := by
  cases spelled with
  | itself notBackslash =>
      rw [List.singleton_append, unescapeFrom, if_neg notBackslash]
  | @letter letter _ listed =>
      exact @unescape_escape [letter] rest [character] (escape_meaning_letter listed rest)
  | escaped listed =>
      have means : escapeMeaning (character :: rest) = ([character], 1) := by
        simp only [List.mem_cons, List.not_mem_nil, or_false] at listed
        rcases listed with rfl | rfl | rfl <;> rfl
      exact @unescape_escape [character] rest [character] means
  | @hexadecimal letter _ width listed digits length code =>
      apply @unescape_escape (letter :: digits.map WrittenDigit.character) rest [character]
      rw [List.cons_append, escape_meaning_hex listed, ← length, hex_meaning_digits code,
        List.length_cons, List.length_map]
  | @octal _ digits length code =>
      apply @unescape_escape (digits.map WrittenDigit.character) rest [character]
      cases digits with
      | nil => cases length
      | cons digit digits =>
          have isOctal : isOctalDigit digit.character = true :=
            is_digit_of_written (by decide) [digit] digit.character (.head _)
          have means := octal_meaning_digits length code rest
          rw [List.map_cons, List.cons_append] at means ⊢
          rw [escape_meaning_octal isOctal, means, List.length_cons, List.length_map, ← length,
            List.length_cons]

theorem unescape_spelling {text body : List Char} (spelled : SpellsText mark triple text body) :
    unescape body = text := by
  unfold unescape
  induction spelled with
  | nil => rfl
  | @continued text body _ ih =>
      have means : escapeMeaning ('\n' :: body) = ([], 1) := rfl
      rw [← ih]
      exact @unescape_escape ['\n'] body [] means
  | @cons character written text body first _ ih => rw [unescape_spelled first, ih]

/-- No mark of the quote stands at the start of a spelled text. -/
theorem spelling_starts (isQuote : IsQuote mark) {text body : List Char}
    (spelled : SpellsText mark triple text body) : body.head? ≠ some mark := by
  have notBackslash {rest : List Char} : ('\\' :: rest).head? ≠ some mark := by
    intro isHead
    exact quote_ne_backslash isQuote (Option.some.inj isHead).symm
  cases spelled with
  | nil => exact Option.some_ne_none mark ∘ Eq.symm
  | continued => exact notBackslash
  | cons first =>
      cases first with
      | itself _ notMark =>
          intro isHead
          exact notMark (Option.some.inj isHead)
      | letter | escaped | hexadecimal | octal => exact notBackslash

/-- However a text is spelled, a literal with any of the four quotes stands for it, bare or marked as text. -/
theorem text_of_spelling {flag : Option Char} (unicode : ∀ letter ∈ flag, letter = 'u' ∨ letter = 'U')
    (isQuote : IsQuote mark) {text body : List Char} (spelled : SpellsText mark triple text body) :
    text? (flag.toList ++ (quotation mark triple ++ (body ++ quotation mark triple))) = some text := by
  have areFlags : ∀ letter ∈ flag.toList, letter ∈ "rRuU".toList := by
    intro letter member
    rcases unicode letter (Option.mem_toList.mp member) with rfl | rfl <;> decide
  have notRaw : (flag.toList.map Char.toLower).contains 'r' = false := by
    cases flag with
    | none => rfl
    | some letter => rcases unicode letter rfl with rfl | rfl <;> rfl
  have starts := spelling_starts isQuote spelled
  rw [text_of_quoted areFlags isQuote triple fun _ => starts, notRaw, unescape_spelling spelled]
  rfl

/-- A spelling with a character of each form, a digit behind digits and a continued line. -/
theorem text_of_mixed_spelling :
    (∀ letter ∈ some 'u', letter = 'u' ∨ letter = 'U') ∧ IsQuote '\'' ∧
      SpellsText '\'' false "a'é77€😀\n\"".toList
        "a\\'\\xE9\\0677\\u20ac\\U0001F600\\\n\\n\"".toList ∧
      text? "u'a\\'\\xE9\\0677\\u20ac\\U0001F600\\\n\\n\"'".toList = some "a'é77€😀\n\"".toList := by
  have unicode : ∀ letter ∈ some 'u', letter = 'u' ∨ letter = 'U' := by simp
  have isQuote : IsQuote '\'' := .inl rfl
  have letter : Spells '\'' false 'a' ['a'] := .itself (by decide) (by decide) (by decide)
  have mark : Spells '\'' false '\'' ['\\', '\''] := .escaped (by decide)
  have accent : Spells '\'' false 'é' ['\\', 'x', 'E', '9'] :=
    @Spells.hexadecimal _ _ 'x' _ 2 (by decide) [⟨14, true, false⟩, ⟨9, false, false⟩] rfl rfl
  have digit : Spells '\'' false '7' ['\\', '0', '6', '7'] :=
    @Spells.octal _ _ _ [⟨0, false, false⟩, ⟨6, false, false⟩, ⟨7, false, false⟩] rfl rfl
  have next : Spells '\'' false '7' ['7'] := .itself (by decide) (by decide) (by decide)
  have currency : Spells '\'' false '€' ['\\', 'u', '2', '0', 'a', 'c'] :=
    @Spells.hexadecimal _ _ 'u' _ 4 (by decide)
      [⟨2, false, false⟩, ⟨0, false, false⟩, ⟨10, false, false⟩, ⟨12, false, false⟩] rfl rfl
  have face : Spells '\'' false '😀' ['\\', 'U', '0', '0', '0', '1', 'F', '6', '0', '0'] :=
    @Spells.hexadecimal _ _ 'U' _ 8 (by decide)
      [⟨0, false, false⟩, ⟨0, false, false⟩, ⟨0, false, false⟩, ⟨1, false, false⟩, ⟨15, true, false⟩,
        ⟨6, false, false⟩, ⟨0, false, false⟩, ⟨0, false, false⟩] rfl rfl
  have feed : Spells '\'' false '\n' ['\\', 'n'] := .letter (by decide)
  have other : Spells '\'' false '"' ['"'] := .itself (by decide) (by decide) (by decide)
  have spelled := SpellsText.cons letter <| .cons mark <| .cons accent <| .cons digit <| .cons next <|
    .cons currency <| .cons face <| .continued <| .cons feed <| .cons other .nil
  exact ⟨unicode, isQuote, spelled, text_of_spelling unicode isQuote spelled⟩

end TaskCab.Source.Quoted
