import TaskCab.Proofs.Source.QuotedText
import TaskCab.Proofs.Text.Runs
import TaskCab.Proofs.Text.Trim

/-!
# Bodies of string literals

The body of a literal that can be read is made of plain characters and escapes, up to its closing quote.
An escape that holds neither a mark nor a backslash behind its first character hides no quote, so that
the body ends at the same place whatever comes after it.
-/

namespace TaskCab.Source.Quoted

open TaskCab.Text

def isNamePart (character : Char) : Bool :=
  character ≠ '\'' && character ≠ '"' && character ≠ '\\' && character ≠ '\x7d' && character ≠ '\x00'

/-- Whether each escape that names its character has the name closed, before any mark or backslash. -/
def namesClosedFrom : List Char → Bool
  | [] => true
  | '\\' :: 'N' :: '\x7b' :: rest =>
      (rest.dropWhile isNamePart).head? = some '\x7d' && namesClosedFrom rest
  | '\\' :: _ :: rest => namesClosedFrom rest
  | _ :: rest => namesClosedFrom rest

/-- Whether the escapes of a literal name their characters as they should. Literals that are raw, of
bytes or with replacement fields are not asked. -/
def namesClosed (literal : List Char) : Bool :=
  ((literal.takeWhile isFlag).any fun flag => "rRbBfF".toList.contains flag) || namesClosedFrom literal

def closing (style : Style) : List Char :=
  if style.triple then [style.mark, style.mark, style.mark] else [style.mark]

theorem inside_of_quote (quote more : List Char) :
    inside? quote (quote ++ more) =
      if quote.isSuffixOf more then some (more.take (more.length - quote.length)) else none := by
  have ends : (decide (2 * quote.length ≤ (quote ++ more).length) && quote.isSuffixOf (quote ++ more)) =
      quote.isSuffixOf more := by
    rw [Bool.eq_iff_iff, Bool.and_eq_true, decide_eq_true_eq, List.isSuffixOf_iff_suffix,
      List.isSuffixOf_iff_suffix, List.length_append]
    constructor
    · rintro ⟨within, isSuffix⟩
      exact List.suffix_of_suffix_length_le isSuffix (List.suffix_append quote more) (by omega)
    · intro isSuffix
      have within := isSuffix.length_le
      exact ⟨by omega, isSuffix.trans (List.suffix_append quote more)⟩
  have length : (quote ++ more).length - 2 * quote.length = more.length - quote.length := by
    rw [List.length_append]
    omega
  rw [inside?, ends, List.drop_left, length]

/-- The quote of a literal: its mark, once or three times. -/
def quotation (mark : Char) (triple : Bool) : List Char := if triple then [mark, mark, mark] else [mark]

theorem trim_quoted {flags : List Char} (areFlags : ∀ flag ∈ flags, flag ∈ "rRuU".toList) {mark : Char}
    (isQuote : IsQuote mark) (triple : Bool) (body : List Char) :
    trim (flags ++ (quotation mark triple ++ (body ++ quotation mark triple))) =
      flags ++ (quotation mark triple ++ (body ++ quotation mark triple)) := by
  have notBlank : isBlank mark = false := by rcases isQuote with rfl | rfl <;> rfl
  have letters : ∀ flag ∈ "rRuU".toList, isBlank flag = false := by decide
  have first : (quotation mark triple).head? = some mark := by cases triple <;> rfl
  have last : (quotation mark triple).getLast? = some mark := by cases triple <;> rfl
  apply trim_of_is_trimmed
  constructor
  · cases flags with
    | nil => rw [List.nil_append, List.head?_append, first, Option.some_or, Option.any_some, notBlank]
    | cons flag flags =>
        rw [List.cons_append, List.head?_cons, Option.any_some]
        exact letters flag (areFlags flag (.head _))
  · rw [List.getLast?_append, List.getLast?_append, List.getLast?_append, last, Option.some_or,
      Option.some_or, Option.some_or, Option.any_some, notBlank]

/-- What a literal stands for is its body, with the escapes replaced unless it is raw. -/
theorem text_of_quoted {flags : List Char} (areFlags : ∀ flag ∈ flags, flag ∈ "rRuU".toList) {mark : Char}
    (isQuote : IsQuote mark) (triple : Bool) {body : List Char}
    (starts : triple = false → body.head? ≠ some mark) :
    text? (flags ++ (quotation mark triple ++ (body ++ quotation mark triple))) =
      some (if (flags.map Char.toLower).contains 'r' then body else unescape body) := by
  have run : (flags ++ (quotation mark triple ++ (body ++ quotation mark triple))).takeWhile
      (fun c => c ≠ '\'' && c ≠ '"') = flags := by
    have letters : ∀ flag ∈ "rRuU".toList, (flag ≠ '\'' && flag ≠ '"') = true := by decide
    apply take_while_run
    · intro flag member
      exact letters flag (areFlags flag member)
    · cases triple <;> apply stops_cons.mpr <;> rcases isQuote with rfl | rfl <;> rfl
  have head : (quotation mark triple ++ (body ++ quotation mark triple)).head? = some mark := by
    cases triple <;> rfl
  have lowered : (flags.map Char.toLower).all (fun letter => letter = 'r' || letter = 'u') = true := by
    have letters : ∀ flag ∈ "rRuU".toList, (flag.toLower = 'r' || flag.toLower = 'u') = true := by decide
    rw [List.all_map, List.all_eq_true]
    intro flag member
    exact letters flag (areFlags flag member)
  have quote : (if [mark, mark, mark].isPrefixOf (quotation mark triple ++ (body ++ quotation mark triple))
      then [mark, mark, mark] else [mark]) = quotation mark triple := by
    cases triple with
    | true => simp [quotation]
    | false =>
        cases body with
        | nil => simp [quotation, List.isPrefixOf]
        | cons character rest =>
            have different : mark ≠ character := by
              rintro rfl
              exact starts rfl rfl
            simp [quotation, List.isPrefixOf, different]
  have inside : inside? (quotation mark triple) (quotation mark triple ++ (body ++ quotation mark triple)) =
      some body := by
    have ends : (quotation mark triple).isSuffixOf (body ++ quotation mark triple) = true :=
      List.isSuffixOf_iff_suffix.mpr (List.suffix_append body _)
    rw [inside_of_quote, if_pos ends, List.length_append, Nat.add_sub_cancel, List.take_left]
  rw [text?, trim_quoted areFlags isQuote]
  dsimp only
  rw [run, List.drop_left]
  simp only [head, Option.bind_eq_bind, Option.bind_some, lowered, if_true, quote, inside]

def IsQuiet (character : Char) : Prop := character ≠ '\'' ∧ character ≠ '"' ∧ character ≠ '\\'

instance : DecidablePred IsQuiet :=
  fun character => inferInstanceAs
    (Decidable (character ≠ '\'' ∧ character ≠ '"' ∧ character ≠ '\\'))

/-- A body with its closing quote, cut into plain characters and escapes. The flag says whether plain
text has been read since the last escape. -/
inductive Body (style : Style) : Bool → List Char → Prop
  | close {plain : Bool} : Body style plain (closing style)
  | plain {plain : Bool} {character : Char} {rest : List Char} (notNull : character ≠ '\x00')
      (notBackslash : character ≠ '\\') (notClosing : closes style (character :: rest) = false)
      (lineEnd : ¬(character = '\n' ∧ plain = true ∧ style.triple = false))
      (body : Body style true rest) : Body style plain (character :: rest)
  | escape {plain : Bool} {carried rest : List Char}
      (length : ∀ after, backslashLength style (carried ++ rest ++ after) = carried.length)
      (alone : carried = [] → ∀ character ∈ rest.head?, character ≠ style.mark ∧ character ≠ '\\')
      (quiet : ∀ character ∈ carried.tail, IsQuiet character)
      (body : Body style (plain && style.raw) rest) : Body style plain ('\\' :: (carried ++ rest))

variable {style : Style}

theorem closes_eq (text : List Char) : closes style text = (closing style).isPrefixOf text := rfl

theorem closing_le_body {plain : Bool} {body : List Char} (isBody : Body style plain body) :
    (closing style).length ≤ body.length := by
  induction isBody with
  | close => exact Nat.le_refl _
  | plain _ _ _ _ _ ih =>
      rw [List.length_cons]
      omega
  | escape _ _ _ _ ih =>
      simp only [List.length_cons, List.length_append]
      omega

theorem last_of_body {plain : Bool} {body : List Char} (isBody : Body style plain body) :
    body.getLast? = some style.mark := by
  induction isBody with
  | close =>
      unfold closing
      split <;> rfl
  | plain _ _ _ _ _ ih => simp [List.getLast?_cons, ih]
  | escape _ _ _ _ ih => simp [List.getLast?_cons, List.getLast?_append, ih]

theorem closing_length : (closing style).length = if style.triple then 3 else 1 := by
  unfold closing
  split <;> rfl

theorem eq_closing_of_le {plain : Bool} {body : List Char} (isBody : Body style plain body)
    (short : body.length ≤ (closing style).length) : body = closing style := by
  cases isBody with
  | close => rfl
  | plain _ _ _ _ rest =>
      have bound := closing_le_body rest
      rw [List.length_cons] at short
      omega
  | escape _ _ _ rest =>
      have bound := closing_le_body rest
      rw [List.length_cons, List.length_append] at short
      omega

theorem eq_closing_of_head {plain : Bool} {body : List Char} (isBody : Body style plain body)
    (quote : IsQuote style.mark) (single : style.triple = false)
    (head : body.head? = some style.mark) : body = closing style := by
  cases isBody with
  | close => rfl
  | plain _ _ notClosing _ _ =>
      obtain rfl := Option.some.inj head
      simp [closes, single] at notClosing
  | escape =>
      have same : '\\' = style.mark := Option.some.inj head
      exact absurd same.symm (quote_ne_backslash quote)

theorem prefix_of_le {start text : List Char} (within : start.length ≤ text.length)
    (after : List Char) : start.isPrefixOf (text ++ after) = start.isPrefixOf text := by
  induction start generalizing text with
  | nil => simp
  | cons first start ih =>
      cases text with
      | nil => simp at within
      | cons character text =>
          have later := ih (Nat.le_of_succ_le_succ within)
          simp [List.isPrefixOf, later]

theorem closing_from_skip (plain : Bool) (skipped after : List Char) :
    closingFrom? style plain skipped.length (skipped ++ after) =
      (closingFrom? style plain 0 after).map (· + skipped.length) := by
  induction skipped with
  | nil => simp
  | cons character rest ih =>
      rw [List.length_cons, List.cons_append, closingFrom?, ih, Option.map_map]
      congr 1

/-- A body ends where it does, whatever comes after it. -/
theorem closing_from_body {plain : Bool} {body : List Char} (isBody : Body style plain body)
    (quote : IsQuote style.mark) (after : List Char) :
    closingFrom? style plain 0 (body ++ after) = some body.length := by
  have notBackslash := quote_ne_backslash quote
  have notNull := quote_ne_null quote
  induction isBody with
  | close =>
      have closed : closes style (closing style ++ after) = true := by
        rw [closes_eq, List.isPrefixOf_iff_prefix]
        exact List.prefix_append _ _
      unfold closing at closed ⊢
      split
      next triple =>
        rw [if_pos triple] at closed
        simp only [List.cons_append] at closed ⊢
        rw [closingFrom?, if_neg notNull, if_neg notBackslash, closed]
        simp [triple]
      next single =>
        rw [if_neg single] at closed
        simp only [List.cons_append] at closed ⊢
        rw [closingFrom?, if_neg notNull, if_neg notBackslash, closed]
        simp [single]
  | @plain plain character rest notNull notBackslash notClosing lineEnd body ih =>
      have within : (closing style).length ≤ (character :: rest).length := by
        have bound := closing_le_body body
        rw [List.length_cons]
        omega
      rw [closes_eq, ← prefix_of_le within after] at notClosing
      rw [List.cons_append] at notClosing ⊢
      rw [closingFrom?, if_neg notNull, if_neg notBackslash, closes_eq, notClosing, ih]
      simp only [Bool.false_eq_true, if_false, Option.map_some, List.length_cons]
      rw [if_neg]
      simpa using lineEnd
  | @escape plain carried rest length alone quiet body ih =>
      have carriedLength := length after
      rw [List.cons_append, closingFrom?, if_neg (by decide), if_pos rfl, carriedLength,
        List.append_assoc, closing_from_skip, ih]
      simp only [Option.map_some, List.length_cons, List.length_append]
      congr 1
      omega

theorem quiet_of {holds : Char → Bool}
    (loud : holds '\'' = false ∧ holds '"' = false ∧ holds '\\' = false) {character : Char}
    (held : holds character = true) : IsQuiet character := by
  refine ⟨?_, ?_, ?_⟩ <;> rintro rfl
  · simp [loud.1] at held
  · simp [loud.2.1] at held
  · simp [loud.2.2] at held

theorem quote_not_quiet {quote : Char} (isQuote : IsQuote quote) : ¬IsQuiet quote := by
  intro quiet
  rcases isQuote with rfl | rfl
  · exact quiet.1 rfl
  · exact quiet.2.1 rfl

theorem is_quiet_hex {character : Char} (hex : isHexDigit character = true) : IsQuiet character :=
  quiet_of (by decide) hex

def hexAhead (width : Nat) (text : List Char) : Bool :=
  (text.take width).length = width && (text.take width).all isHexDigit

theorem hex_ahead_append (width : Nat) {quote : Char} (isQuote : IsQuote quote) {text : List Char}
    (member : quote ∈ text) (after : List Char) :
    hexAhead width (text ++ after) = hexAhead width text := by
  by_cases within : width ≤ text.length
  · rw [hexAhead, hexAhead, List.take_append_of_le_length within]
  · have short : hexAhead width text = false := by
      simp only [hexAhead, List.length_take, Bool.and_eq_false_iff, decide_eq_false_iff_not]
      omega
    have stopped : hexAhead width (text ++ after) = false := by
      rw [hexAhead, Bool.and_eq_false_iff]
      right
      apply Bool.eq_false_iff.mpr
      intro all
      have inWindow : quote ∈ (text ++ after).take width := by
        rw [List.take_append, List.take_of_length_le (by omega)]
        exact List.mem_append_left _ member
      exact quote_not_quiet isQuote (is_quiet_hex (List.all_eq_true.mp all quote inWindow))
    rw [short, stopped]

def nameLength : List Char → Nat
  | '\x7b' :: name =>
      let inside := name.takeWhile fun c => c ≠ '\x7d' && c ≠ '\x00'
      if inside.isEmpty || (name.drop inside.length).head? ≠ some '\x7d' then 0 else inside.length + 3
  | _ => 0

theorem escape_length_eq (letter : Char) (rest : List Char) :
    escapeLength (letter :: rest) =
      if letter = 'u' then if hexAhead 4 rest then 5 else 0
      else if letter = 'U' then if hexAhead 8 rest then 9 else 0
      else if letter = 'x' then if hexAhead 2 rest then 3 else 0
      else if letter.isDigit then 1 + ((rest.take 2).takeWhile Char.isDigit).length
      else if letter = '\n' then 1
      else if letter = '\r' then (if rest.head? = some '\n' then 2 else 0)
      else if letter = 'N' then nameLength rest
      else if "'\"abfrntv\\".toList.contains letter then 1
      else 0 := by
  rw [escapeLength.eq_def]
  rfl

/-- The name of an escape, and what comes after it. -/
theorem name_of_closed {rest : List Char}
    (closed : namesClosedFrom ('\\' :: 'N' :: '\x7b' :: rest) = true) :
    ∃ name more, rest = name ++ '\x7d' :: more ∧ ∀ character ∈ name, isNamePart character = true := by
  rw [namesClosedFrom, Bool.and_eq_true] at closed
  have head : (rest.dropWhile isNamePart).head? = some '\x7d' := by simpa using closed.1
  cases back : rest.dropWhile isNamePart with
  | nil => simp [back] at head
  | cons first more =>
      obtain rfl : first = '\x7d' := by simpa [back] using head
      refine ⟨rest.takeWhile isNamePart, more, ?_, fun c member => List.mem_takeWhile_imp member⟩
      rw [← back, List.takeWhile_append_dropWhile]

theorem name_length_of {name : List Char} (parts : ∀ character ∈ name, isNamePart character = true)
    (more : List Char) :
    nameLength ('\x7b' :: (name ++ '\x7d' :: more)) = if name.isEmpty then 0 else name.length + 3 := by
  have inside : (name ++ '\x7d' :: more).takeWhile (fun c => c ≠ '\x7d' && c ≠ '\x00') = name := by
    apply take_while_run
    · intro character member
      have part := parts character member
      simp only [isNamePart, Bool.and_eq_true, decide_eq_true_eq] at part ⊢
      exact ⟨part.1.2, part.2⟩
    · simp
  rw [nameLength]
  simp only [inside, List.drop_left, List.head?_cons]
  simp

theorem escape_length_append {letter quote : Char} (isQuote : IsQuote quote) {rest : List Char}
    (member : quote ∈ letter :: rest)
    (names : namesClosedFrom ('\\' :: letter :: rest) = true) (after : List Char) :
    escapeLength (letter :: (rest ++ after)) = escapeLength (letter :: rest) := by
  by_cases isLetter : letter = quote
  · rw [isLetter]
    rcases isQuote with rfl | rfl <;> rfl
  have inside : quote ∈ rest := by
    rcases List.mem_cons.mp member with same | inside
    · exact absurd same.symm isLetter
    · exact inside
  have digits : ((rest ++ after).take 2).takeWhile Char.isDigit =
      (rest.take 2).takeWhile Char.isDigit := by
    match rest with
    | [] => simp at inside
    | [only] =>
        obtain rfl : quote = only := by simpa using inside
        have notDigit : quote.isDigit = false := by rcases isQuote with rfl | rfl <;> rfl
        simp [notDigit]
    | first :: second :: more => simp
  have head : (rest ++ after).head? = rest.head? := by
    cases rest with
    | nil => simp at inside
    | cons first more => rfl
  have name : letter = 'N' → nameLength (rest ++ after) = nameLength rest := by
    rintro rfl
    cases rest with
    | nil => simp at inside
    | cons first more =>
        by_cases brace : first = '\x7b'
        · obtain rfl := brace
          obtain ⟨name, behind, rfl, parts⟩ := name_of_closed names
          rw [List.cons_append, List.append_assoc, List.cons_append, name_length_of parts,
            name_length_of parts]
        · simp [nameLength, brace]
  rw [escape_length_eq, escape_length_eq, hex_ahead_append 4 isQuote inside,
    hex_ahead_append 8 isQuote inside, hex_ahead_append 2 isQuote inside, digits, head]
  by_cases named : letter = 'N'
  · rw [name named]
  · simp [named]

theorem quiet_hex_ahead {width : Nat} {rest : List Char} (ahead : hexAhead width rest = true) :
    ∀ character ∈ rest.take width, IsQuiet character := by
  intro character member
  rw [hexAhead, Bool.and_eq_true] at ahead
  exact is_quiet_hex (List.all_eq_true.mp ahead.2 character member)

theorem quiet_digits (rest : List Char) :
    ∀ character ∈ rest.take ((rest.take 2).takeWhile Char.isDigit).length, IsQuiet character := by
  have isPrefix : (rest.take 2).takeWhile Char.isDigit <+: rest :=
    (List.takeWhile_prefix _).trans (List.take_prefix _ _)
  rw [← List.prefix_iff_eq_take.mp isPrefix]
  exact fun character member => quiet_of (by decide) (List.mem_takeWhile_imp member)

/-- The name of a character, with its brackets, holds no mark and no backslash. -/
theorem quiet_name {rest : List Char} (names : namesClosedFrom ('\\' :: 'N' :: rest) = true) :
    ∀ character ∈ rest.take (nameLength rest - 1), IsQuiet character := by
  cases rest with
  | nil => simp
  | cons first more =>
      by_cases brace : first = '\x7b'
      · obtain rfl := brace
        obtain ⟨name, behind, rfl, parts⟩ := name_of_closed names
        have window : ('\x7b' :: (name ++ '\x7d' :: behind)).take (name.length + 2) =
            '\x7b' :: (name ++ ['\x7d']) := by
          rw [List.take_succ_cons, List.take_append, List.take_of_length_le (by omega)]
          simp
        have within : ∀ character ∈ '\x7b' :: (name ++ ['\x7d']), IsQuiet character := by
          refine List.forall_mem_cons.mpr ⟨by decide, fun character member => ?_⟩
          rcases List.mem_append.mp member with part | last
          · exact quiet_of (by decide) (parts character part)
          · obtain rfl : character = '\x7d' := by simpa using last
            decide
        rw [name_length_of parts]
        cases name with
        | nil => simp
        | cons letter others => exact window ▸ within
      · simp [nameLength, brace]

theorem quiet_newline {rest : List Char} (newline : rest.head? = some '\n') :
    ∀ character ∈ rest.take 1, IsQuiet character := by
  obtain ⟨more, rfl⟩ := List.head?_eq_some_iff.mp newline
  intro character member
  obtain rfl : character = '\n' := by simpa using member
  decide

theorem escape_length_le {letter : Char} {rest : List Char}
    (names : namesClosedFrom ('\\' :: letter :: rest) = true) :
    (escapeLength (letter :: rest) = 0 → IsQuiet letter) ∧
      ∀ character ∈ rest.take (escapeLength (letter :: rest) - 1), IsQuiet character := by
  have hex {width : Nat} (quiet : IsQuiet letter) :
      ((if hexAhead width rest then width + 1 else 0) = 0 → IsQuiet letter) ∧
        ∀ character ∈ rest.take ((if hexAhead width rest then width + 1 else 0) - 1),
          IsQuiet character := by
    split
    next ahead => exact ⟨fun _ => quiet, quiet_hex_ahead ahead⟩
    next => exact ⟨fun _ => quiet, by simp⟩
  rw [escape_length_eq]
  split
  next isLetter => exact hex (isLetter ▸ by decide)
  split
  next isLetter => exact hex (isLetter ▸ by decide)
  split
  next isLetter => exact hex (isLetter ▸ by decide)
  split
  next =>
    rw [Nat.add_sub_cancel_left]
    exact ⟨fun none => absurd none (by omega), quiet_digits rest⟩
  split
  next => exact ⟨by simp, by simp⟩
  split
  next isReturn =>
    split
    next newline => exact ⟨by simp, quiet_newline newline⟩
    next => exact ⟨fun _ => isReturn ▸ by decide, by simp⟩
  split
  next isName =>
    obtain rfl := isName
    exact ⟨fun _ => by decide, quiet_name names⟩
  split
  next => exact ⟨by simp, by simp⟩
  next notListed =>
    refine ⟨fun _ => ⟨?_, ?_, ?_⟩, by simp⟩ <;>
      · rintro rfl
        exact notListed (by decide)

def lineEndLength : List Char → Nat
  | '\r' :: '\n' :: _ => 2
  | '\r' :: _ => 1
  | '\n' :: _ => 1
  | _ => 0

theorem raw_length_cons (mark character : Char) (rest : List Char) :
    rawLength mark (character :: rest) =
      if character = mark || character = '\\' then 1 + lineEndLength rest
      else lineEndLength (character :: rest) := by
  rw [rawLength.eq_def]
  rfl

theorem line_end_append {text after : List Char}
    (within : lineEndLength (text ++ after) < text.length) :
    (∀ other, lineEndLength (text ++ other) = lineEndLength (text ++ after)) ∧
      ∀ character ∈ text.take (lineEndLength (text ++ after)), IsQuiet character := by
  have quietReturn : IsQuiet '\r' := by decide
  have quietNewline : IsQuiet '\n' := by decide
  match text with
  | [] => simp at within
  | [only] =>
      by_cases isReturn : only = '\r'
      · have positive : 1 ≤ lineEndLength (only :: after) := by
          rw [isReturn]
          unfold lineEndLength
          split <;> simp_all
        simp only [List.cons_append, List.nil_append, List.length_singleton] at within
        omega
      · by_cases isNewline : only = '\n'
        · simp [isNewline, lineEndLength] at within
        · simp [lineEndLength, isReturn, isNewline]
  | first :: second :: more =>
      by_cases isReturn : first = '\r'
      · by_cases isNewline : second = '\n'
        · simp [isReturn, isNewline, lineEndLength, quietReturn, quietNewline]
        · simp [isReturn, isNewline, lineEndLength, quietReturn]
      · by_cases isNewline : first = '\n'
        · simp [isNewline, lineEndLength, quietNewline]
        · simp [isReturn, isNewline, lineEndLength]

theorem ne_quote_of_quiet {quote character : Char} (isQuote : IsQuote quote)
    (quiet : IsQuiet character) : character ≠ quote := by
  rintro rfl
  exact quote_not_quiet isQuote quiet

theorem backslash_length_append (quote : IsQuote style.mark) (noBytes : style.bytes = false)
    {rest after : List Char} (member : style.mark ∈ rest)
    (room : backslashLength style (rest ++ after) < rest.length)
    (names : style.raw = false → namesClosedFrom ('\\' :: rest) = true) :
    (∀ other, backslashLength style (rest ++ other) = backslashLength style (rest ++ after)) ∧
      (backslashLength style (rest ++ after) = 0 →
        ∀ character ∈ rest.head?, character ≠ style.mark ∧ character ≠ '\\') ∧
      ∀ character ∈ (rest.take (backslashLength style (rest ++ after))).tail, IsQuiet character := by
  cases rest with
  | nil => simp at member
  | cons letter more =>
      by_cases raw : style.raw = true
      · have spec (other : List Char) :
            backslashLength style (letter :: more ++ other) =
              if letter = style.mark || letter = '\\' then 1 + lineEndLength (more ++ other)
              else lineEndLength (letter :: more ++ other) := by
          rw [backslashLength, if_pos raw, List.cons_append, raw_length_cons]
        by_cases carries : (letter = style.mark || letter = '\\') = true
        · simp only [spec, if_pos carries] at room ⊢
          rw [List.length_cons, Nat.add_comm, Nat.add_lt_add_iff_right] at room
          obtain ⟨same, quiet⟩ := line_end_append room
          refine ⟨fun other => by rw [same], fun none => absurd none (by omega), ?_⟩
          rw [Nat.add_comm, List.take_succ_cons]
          exact quiet
        · simp only [spec, if_neg carries] at room ⊢
          obtain ⟨same, quiet⟩ := line_end_append room
          refine ⟨same, fun _ => by simpa using carries, ?_⟩
          exact fun character member => quiet character (List.mem_of_mem_tail member)
      · have noRaw : style.raw = false := by simpa using raw
        have spec (other : List Char) :
            backslashLength style (letter :: more ++ other) = escapeLength (letter :: more) := by
          rw [backslashLength, if_neg raw, noBytes, Bool.false_and, if_neg Bool.false_ne_true,
            List.cons_append, escape_length_append quote member (names noRaw)]
        obtain ⟨alone, quiet⟩ := escape_length_le (names noRaw)
        simp only [spec]
        refine ⟨fun _ => trivial, ?_, ?_⟩
        · intro none character isHead
          obtain rfl : letter = character := by simpa using isHead
          exact ⟨ne_quote_of_quiet quote (alone none), (alone none).2.2⟩
        · cases found : escapeLength (letter :: more) with
          | zero => simp
          | succ length =>
              rw [found] at quiet
              exact quiet

theorem names_cons {character : Char} (notBackslash : character ≠ '\\') (rest : List Char) :
    namesClosedFrom (character :: rest) = namesClosedFrom rest := by
  rw [namesClosedFrom.eq_def]
  split <;> simp_all

theorem names_escape {character : Char} {rest : List Char}
    (names : namesClosedFrom ('\\' :: character :: rest) = true) : namesClosedFrom rest = true := by
  by_cases named : character = 'N' ∧ ∃ more, rest = '\x7b' :: more
  · obtain ⟨rfl, more, rfl⟩ := named
    rw [namesClosedFrom, Bool.and_eq_true] at names
    rw [names_cons (by decide)]
    exact names.2
  · rw [namesClosedFrom] at names
    · exact names
    · intro more isName brace
      exact named ⟨isName, more, brace⟩

theorem names_quiet {carried : List Char} (quiet : ∀ character ∈ carried, IsQuiet character)
    (rest : List Char) : namesClosedFrom (carried ++ rest) = namesClosedFrom rest := by
  induction carried with
  | nil => rfl
  | cons character carried ih =>
      rw [List.cons_append, names_cons (quiet character (.head _)).2.2]
      exact ih fun c member => quiet c (.tail _ member)

theorem names_after_escape {carried rest : List Char}
    (names : namesClosedFrom ('\\' :: (carried ++ rest)) = true)
    (alone : carried = [] → ∀ character ∈ rest.head?, character ≠ '\\')
    (quiet : ∀ character ∈ carried.tail, IsQuiet character) : namesClosedFrom rest = true := by
  cases carried with
  | nil =>
      cases rest with
      | nil => rfl
      | cons character rest =>
          rw [names_cons (alone rfl character rfl)]
          exact names_escape names
  | cons character carried =>
      rw [← names_quiet quiet]
      exact names_escape names

theorem closing_from_positive {plain : Bool} {skip : Nat} {text : List Char} {count : Nat}
    (found : closingFrom? style plain skip text = some count) : skip < count := by
  induction text generalizing skip plain count with
  | nil => simp [closingFrom?] at found
  | cons character rest ih =>
      cases skip with
      | succ skip =>
          rw [closingFrom?] at found
          obtain ⟨inner, later, rfl⟩ := Option.map_eq_some_iff.mp found
          have bound := ih later
          omega
      | zero =>
          rw [closingFrom?] at found
          split at found
          · simp at found
          split at found
          · obtain ⟨inner, -, rfl⟩ := Option.map_eq_some_iff.mp found
            omega
          split at found
          · obtain rfl := Option.some.inj found
            split <;> omega
          split at found
          · simp at found
          · obtain ⟨inner, -, rfl⟩ := Option.map_eq_some_iff.mp found
            omega

theorem eq_closing {body after : List Char} (closed : closes style (body ++ after) = true)
    (length : (closing style).length = body.length) : body = closing style := by
  have start : closing style <+: body ++ after := List.isPrefixOf_iff_prefix.mp closed
  rw [List.prefix_iff_eq_take.mp start, length, List.take_left]

theorem mark_mem_closing : style.mark ∈ closing style := by
  unfold closing
  split <;> simp

theorem mark_mem_of_closing {plain : Bool} {skip : Nat} {body after : List Char}
    (found : closingFrom? style plain skip (body ++ after) = some body.length) :
    style.mark ∈ body := by
  induction body generalizing skip plain with
  | nil =>
      have positive := closing_from_positive found
      simp at positive
  | cons character rest ih =>
      rw [List.cons_append] at found
      cases skip with
      | succ skip =>
          rw [closingFrom?] at found
          obtain ⟨inner, later, same⟩ := Option.map_eq_some_iff.mp found
          obtain rfl : inner = rest.length := by simpa using same
          exact .tail _ (ih later)
      | zero =>
          rw [closingFrom?] at found
          split at found
          · simp at found
          split at found
          · obtain ⟨inner, later, same⟩ := Option.map_eq_some_iff.mp found
            obtain rfl : inner = rest.length := by simpa using same
            exact .tail _ (ih later)
          split at found
          next closed =>
            rw [← closing_length] at found
            rw [← List.cons_append] at closed
            rw [eq_closing closed (Option.some.inj found)]
            exact mark_mem_closing
          split at found
          · simp at found
          · obtain ⟨inner, later, same⟩ := Option.map_eq_some_iff.mp found
            obtain rfl : inner = rest.length := by simpa using same
            exact .tail _ (ih later)

/-- A backslash within a literal carries along what does not close it. -/
theorem body_of_escape (quote : IsQuote style.mark) (noBytes : style.bytes = false) {rest after : List Char}
    {plain : Bool} (names : style.raw = false → namesClosedFrom ('\\' :: rest) = true)
    (later : closingFrom? style (plain && style.raw) (backslashLength style (rest ++ after)) (rest ++ after) =
      some rest.length)
    (bodies : ∀ behind : List Char, behind.length ≤ rest.length →
      closingFrom? style (plain && style.raw) 0 (behind ++ after) = some behind.length →
      (style.raw = false → namesClosedFrom behind = true) → Body style (plain && style.raw) behind) :
    Body style plain ('\\' :: rest) := by
  have room := closing_from_positive later
  obtain ⟨length, alone, quiet⟩ :=
    backslash_length_append quote noBytes (mark_mem_of_closing later) room names
  generalize backslashLength style (rest ++ after) = width at later room length alone quiet
  obtain ⟨carried, behind, rfl, rfl⟩ :
      ∃ carried behind, rest = carried ++ behind ∧ carried.length = width := by
    refine ⟨rest.take width, rest.drop width, (List.take_append_drop _ _).symm, ?_⟩
    rw [List.length_take]
    omega
  have aloneHead : carried = [] →
      ∀ character ∈ behind.head?, character ≠ style.mark ∧ character ≠ '\\' := by
    rintro rfl
    exact alone rfl
  rw [List.take_left] at quiet
  rw [List.append_assoc, closing_from_skip, List.length_append] at later
  obtain ⟨last, closed, same⟩ := Option.map_eq_some_iff.mp later
  obtain rfl : last = behind.length := by omega
  refine .escape length aloneHead quiet (bodies behind (by simp) closed fun noRaw => ?_)
  exact names_after_escape (names noRaw) (fun none c member => (aloneHead none c member).2) quiet

/-- What a literal closes after is a body. -/
theorem body_of_closing (quote : IsQuote style.mark) (noBytes : style.bytes = false)
    {after : List Char} (count : Nat) {plain : Bool} {body : List Char} (bound : body.length ≤ count)
    (found : closingFrom? style plain 0 (body ++ after) = some body.length)
    (names : style.raw = false → namesClosedFrom body = true) : Body style plain body := by
  induction count generalizing plain body with
  | zero =>
      have positive := closing_from_positive found
      omega
  | succ count ih =>
      cases body with
      | nil =>
          have positive := closing_from_positive found
          simp at positive
      | cons character rest =>
          rw [List.length_cons, Nat.add_le_add_iff_right] at bound
          rw [List.cons_append, closingFrom?] at found
          split at found
          · simp at found
          next notNull =>
          split at found
          next backslash =>
            obtain rfl := backslash
            obtain ⟨inner, later, same⟩ := Option.map_eq_some_iff.mp found
            obtain rfl : inner = rest.length := by simpa using same
            exact body_of_escape quote noBytes names later
              fun behind shorter => ih (Nat.le_trans shorter bound)
          next notBackslash =>
          have namesRest : style.raw = false → namesClosedFrom rest = true := by
            intro noRaw
            rw [← names_cons notBackslash]
            exact names noRaw
          split at found
          next closed =>
            rw [← closing_length] at found
            rw [← List.cons_append] at closed
            rw [eq_closing closed (Option.some.inj found)]
            exact .close
          next notClosed =>
          split at found
          · simp at found
          next lineEnd =>
            obtain ⟨inner, later, same⟩ := Option.map_eq_some_iff.mp found
            obtain rfl : inner = rest.length := by simpa using same
            refine .plain notNull notBackslash ?_ (by simpa using lineEnd) (ih bound later namesRest)
            apply Bool.eq_false_iff.mpr
            intro closed
            apply notClosed
            rw [closes_eq, List.isPrefixOf_iff_prefix] at closed ⊢
            rw [← List.cons_append]
            exact closed.trans (List.prefix_append _ _)

end TaskCab.Source.Quoted
