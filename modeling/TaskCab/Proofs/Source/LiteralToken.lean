import TaskCab.Proofs.Source.LiteralBody
import TaskCab.Proofs.Source.TokenEdges
import TaskCab.Proofs.Text.Trim

/-!
# String tokens

A string token is either a literal that reads as text, which is found again in front of other text, or
one of bytes, with replacement fields or between backquotes, which stands for no text wherever it ends.
-/

namespace TaskCab.Source.Quoted

open TaskCab.Text

variable {style : Style}

/-- What the opening of a literal says of the text. -/
theorem opening_spec {text : List Char} {length : Nat} (found : opening? text = some (style, length)) :
    ∃ flags rest, text = flags ++ style.mark :: rest ∧ (∀ flag ∈ flags, isFlag flag = true) ∧
      isMark style.mark = true ∧ length = flags.length + (closing style).length ∧
      (style.triple = true ↔ style.mark ≠ '`' ∧ [style.mark, style.mark] <+: rest) ∧
      style.raw = (flags.map Char.toLower).contains 'r' ∧
      style.bytes = (flags.map Char.toLower).contains 'b' ∧
      style.format = (flags.map Char.toLower).contains 'f' := by
  unfold opening? at found
  dsimp only at found
  have cut := List.prefix_iff_eq_append.mp (@List.takeWhile_prefix _ text isFlag)
  split at found
  next => simp at found
  next mark rest same =>
    split at found
    next isMark =>
      obtain ⟨rfl, rfl⟩ := Prod.mk.inj (Option.some.inj found)
      rw [same] at cut
      refine ⟨_, rest, cut.symm, fun flag member => List.mem_takeWhile_imp member, isMark, ?_, ?_,
        rfl, rfl, rfl⟩
      · rw [closing_length]
      · simp
    next => simp at found

theorem visible_of_flag {character : Char} (flag : isFlag character = true) :
    Lexeme.IsVisible character := by
  have all : ∀ letter ∈ "rRuUbBfF".toList, letter ≠ '\n' ∧ Lexeme.isBlank letter = false ∧
      letter ≠ '#' ∧ letter ≠ '\\' ∧ Lexeme.isUnseen letter = false := by decide
  exact all character (List.contains_iff_mem.mp flag)

theorem visible_of_mark {character : Char} (mark : isMark character = true) :
    Lexeme.IsVisible character := by
  have cases : character = '\'' ∨ character = '"' ∨ character = '`' := by
    simpa [isMark, or_assoc] using mark
  rcases cases with rfl | rfl | rfl <;> exact ⟨by decide, rfl, by decide, by decide, rfl⟩

theorem first_of_string {character : Char} {rest : List Char} {length : Nat}
    (found : Lexeme.first character rest = (.string, length)) :
    (∃ opening, opening? (character :: rest) = some opening) ∧
      length? (character :: rest) = some length := by
  rw [Lexeme.first_visible (Lexeme.visible_of_token found rfl)] at found
  split at found
  next opening opens =>
    split at found
    next inner closes =>
      obtain rfl := (Prod.mk.inj found).2
      exact ⟨⟨opening, opens⟩, closes⟩
    next => simp at found
  next none =>
    have kinds := Lexeme.bare_kind character rest
    rw [found] at kinds
    simp [LexemeKind.isBare] at kinds

/-- A literal that is read as text: letters, an opening quote and a body. -/
structure IsTextLiteral (style : Style) (flags body literal : List Char) : Prop where
  text : literal = flags ++ (closing style ++ body)
  flags : ∀ flag ∈ flags, isFlag flag = true
  quote : IsQuote style.mark
  body : Body style false body

theorem closing_prefix {rest : List Char}
    (triple : style.triple = true ↔ style.mark ≠ '`' ∧ [style.mark, style.mark] <+: rest) :
    ∃ more, style.mark :: rest = closing style ++ more := by
  unfold closing
  split
  next isTriple =>
    obtain ⟨more, rfl⟩ := (triple.mp isTriple).2
    exact ⟨more, rfl⟩
  next => exact ⟨rest, rfl⟩

/-- A literal of another sort, which stands for no text: of bytes, with replacement fields or between
backquotes. -/
def IsOther (literal : List Char) : Prop :=
  ∃ flags mark rest, literal = flags ++ mark :: rest ∧ (∀ flag ∈ flags, isFlag flag = true) ∧
    isMark mark = true ∧ (mark = '`' ∨ ∃ flag ∈ flags, flag.toLower ≠ 'r' ∧ flag.toLower ≠ 'u')

theorem is_quote_of_mark {mark : Char} (quotes : isMark mark = true) (notBack : mark ≠ '`') :
    IsQuote mark := by
  have cases : mark = '\'' ∨ mark = '"' ∨ mark = '`' := by simpa [isMark, or_assoc] using quotes
  rcases cases with rfl | rfl | rfl
  · exact .inl rfl
  · exact .inr rfl
  · exact absurd rfl notBack

theorem not_flag_of_mark {mark : Char} (quotes : isMark mark = true) : isFlag mark = false := by
  have cases : mark = '\'' ∨ mark = '"' ∨ mark = '`' := by simpa [isMark, or_assoc] using quotes
  rcases cases with rfl | rfl | rfl <;> rfl

theorem length_of_opening {text : List Char} {length : Nat}
    (opens : opening? text = some (style, length)) :
    length? text = (if style.format then closingFields? [.body style] 0 (text.drop length)
      else closingFrom? style false 0 (text.drop length)).map (length + ·) := by
  rw [length?, opens]
  simp only [Option.bind_eq_bind, Option.bind_some]
  split
  · cases closingFields? [.body style] 0 (text.drop length) <;> rfl
  · cases closingFrom? style false 0 (text.drop length) <;> rfl

theorem start_of_append {start rest literal after : List Char} (same : literal ++ after = start ++ rest)
    (length : start.length ≤ literal.length) : ∃ more, literal = start ++ more ∧ rest = more ++ after := by
  have within : start <+: literal :=
    List.prefix_of_prefix_length_le (same ▸ List.prefix_append start rest)
      (List.prefix_append literal after) length
  obtain ⟨more, rfl⟩ := within
  rw [List.append_assoc, List.append_cancel_left_eq] at same
  exact ⟨more, rfl, same.symm⟩

theorem names_of_literal {flags body : List Char} (areFlags : ∀ flag ∈ flags, isFlag flag = true)
    (quotes : isMark style.mark = true) (plain : ∀ flag ∈ flags, flag.toLower ≠ 'r' ∧
      flag.toLower ≠ 'b' ∧ flag.toLower ≠ 'f')
    (names : namesClosed (flags ++ (closing style ++ body)) = true) : namesClosedFrom body = true := by
  have mark : ∃ more, closing style ++ body = style.mark :: more := by
    unfold closing
    split <;> exact ⟨_, rfl⟩
  have run : (flags ++ (closing style ++ body)).takeWhile isFlag = flags := by
    obtain ⟨more, same⟩ := mark
    rw [same]
    exact take_while_run areFlags (stops_cons.mpr (not_flag_of_mark quotes))
  have none : (flags.any fun flag => "rRbBfF".toList.contains flag) = false := by
    rw [List.any_eq_false]
    intro flag member isListed
    have cases : flag = 'r' ∨ flag = 'R' ∨ flag = 'b' ∨ flag = 'B' ∨ flag = 'f' ∨ flag = 'F' := by
      simpa using List.contains_iff_mem.mp isListed
    have lowered := plain flag member
    rcases cases with rfl | rfl | rfl | rfl | rfl | rfl <;> simp at lowered
  rw [namesClosed, run, none, Bool.false_or] at names
  have past (start : List Char) (noBackslash : ∀ character ∈ start, character ≠ '\\')
      (rest : List Char) : namesClosedFrom (start ++ rest) = namesClosedFrom rest := by
    induction start with
    | nil => rfl
    | cons character start ih =>
        rw [List.cons_append, names_cons (noBackslash character (.head _))]
        exact ih fun c member => noBackslash c (.tail _ member)
  have flagsPast : ∀ character ∈ flags, character ≠ '\\' :=
    fun character member => (visible_of_flag (areFlags character member)).2.2.2.1
  have closingPast : ∀ character ∈ closing style, character ≠ '\\' := by
    intro character member
    have same : character = style.mark := by
      unfold closing at member
      split at member <;> simpa using member
    rw [same]
    exact (visible_of_mark quotes).2.2.2.1
  rwa [past flags flagsPast, past (closing style) closingPast] at names

theorem opening_again {flags rest other : List Char} {length : Nat}
    (areFlags : ∀ flag ∈ flags, isFlag flag = true) (quotes : isMark style.mark = true)
    (opens : opening? (flags ++ style.mark :: rest) = some (style, length))
    (same : [style.mark, style.mark].isPrefixOf other = [style.mark, style.mark].isPrefixOf rest) :
    opening? (flags ++ style.mark :: other) = some (style, length) := by
  have run (behind : List Char) : (flags ++ style.mark :: behind).takeWhile isFlag = flags :=
    take_while_run areFlags (stops_cons.mpr (not_flag_of_mark quotes))
  simp only [opening?, run, List.drop_left, quotes, if_true] at opens ⊢
  rw [same, opens]

theorem opening_of_literal {flags body left right : List Char} {length : Nat}
    (literal : IsTextLiteral style flags body (flags ++ closing style ++ body))
    (quotes : isMark style.mark = true)
    (opens : opening? (flags ++ closing style ++ body ++ left) = some (style, length))
    (same : left.head? = some style.mark ↔ right.head? = some style.mark) :
    opening? (flags ++ closing style ++ body ++ right) = some (style, length) := by
  have two (rest : List Char) : [style.mark, style.mark].isPrefixOf (style.mark :: rest) = true ↔
      rest.head? = some style.mark := by
    cases rest with
    | nil => simp
    | cons first rest =>
        simp only [List.isPrefixOf, beq_self_eq_true, Bool.true_and, Bool.and_true, beq_iff_eq,
          List.head?_cons, Option.some.injEq]
        exact eq_comm
  by_cases triple : style.triple = true
  · have front : closing style = style.mark :: [style.mark, style.mark] := by
      rw [closing, if_pos triple]
    simp only [front, List.append_assoc, List.cons_append, List.nil_append] at opens ⊢
    exact opening_again literal.flags quotes opens (by simp)
  · have front : closing style = [style.mark] := by rw [closing, if_neg triple]
    simp only [front, List.append_assoc, List.cons_append, List.nil_append] at opens ⊢
    refine opening_again literal.flags quotes opens ?_
    by_cases long : [style.mark, style.mark].length ≤ body.length
    · rw [prefix_of_le long, prefix_of_le long]
    · have isClosing : body = [style.mark] := by
        rw [← front]
        apply eq_closing_of_le literal.body
        rw [front]
        exact Nat.le_of_lt_succ (Nat.lt_of_not_le long)
      rw [isClosing, List.singleton_append, List.singleton_append, Bool.eq_iff_iff, two, two, same]

theorem other_of_opening {literal after : List Char} {length : Nat}
    (opens : opening? (literal ++ after) = some (style, length)) (within : length ≤ literal.length)
    (other : style.mark = '`' ∨ style.bytes = true ∨ style.format = true) : IsOther literal := by
  obtain ⟨flags, behind, same, areFlags, quotes, rfl, -, -, bytes, format⟩ := opening_spec opens
  have longer : (flags ++ [style.mark]).length ≤ literal.length := by
    rw [closing_length] at within
    rw [List.length_append, List.length_singleton]
    split at within <;> omega
  obtain ⟨more, rfl, -⟩ := @start_of_append (flags ++ [style.mark]) behind literal after
    (by rw [same, List.append_assoc]; rfl) longer
  refine ⟨flags, style.mark, more, by rw [List.append_assoc]; rfl, areFlags, quotes, ?_⟩
  rcases other with back | isBytes | isFormat
  · exact .inl back
  · rw [bytes] at isBytes
    obtain ⟨flag, member, lowered⟩ := List.mem_map.mp (List.contains_iff_mem.mp isBytes)
    exact .inr ⟨flag, member, by rw [lowered]; decide⟩
  · rw [format] at isFormat
    obtain ⟨flag, member, lowered⟩ := List.mem_map.mp (List.contains_iff_mem.mp isFormat)
    exact .inr ⟨flag, member, by rw [lowered]; decide⟩

theorem lowered_ne {flags : List Char} {letter : Char}
    (none : (flags.map Char.toLower).contains letter = false) : ∀ flag ∈ flags, flag.toLower ≠ letter := by
  rintro flag member rfl
  rw [List.contains_iff_mem.mpr (List.mem_map_of_mem member)] at none
  simp at none

theorem no_third_mark {behind after : List Char} (notBack : style.mark ≠ '`')
    (triple : style.triple = true ↔ style.mark ≠ '`' ∧ [style.mark, style.mark] <+: behind)
    (single : style.triple = false)
    (same : style.mark :: behind = closing style ++ (closing style ++ after)) :
    after.head? ≠ some style.mark := by
  intro isHead
  obtain ⟨more, rfl⟩ := List.head?_eq_some_iff.mp isHead
  have front : closing style = [style.mark] := by rw [closing, single]; rfl
  rw [front] at same
  obtain rfl : behind = style.mark :: style.mark :: more := by simpa using same
  exact triple.not.mp (by simp [single]) ⟨notBack, more, rfl⟩

/-- A literal that reads as text is found again in front of a text that is alike ahead. -/
theorem text_literal_again {flags body after right : List Char} {length : Nat}
    (literal : IsTextLiteral style flags body (flags ++ closing style ++ body))
    (quotes : isMark style.mark = true) (noFormat : style.format = false)
    (opens : opening? (flags ++ closing style ++ body ++ after) = some (style, length))
    (isLength : length = (flags ++ closing style).length) (alike : Lexeme.AlikeAhead after right) :
    (∃ opening, opening? (flags ++ closing style ++ body ++ right) = some opening) ∧
      length? (flags ++ closing style ++ body ++ right) = some (flags ++ closing style ++ body).length := by
  have opensRight := opening_of_literal literal quotes opens
    (Lexeme.same_mark_of_alike alike style.mark quotes)
  refine ⟨⟨_, opensRight⟩, ?_⟩
  rw [length_of_opening opensRight, noFormat, if_neg Bool.false_ne_true, isLength,
    List.append_assoc (flags ++ closing style), List.drop_left, closing_from_body literal.body literal.quote,
    Option.map_some, ← List.length_append]

/-- A literal token reads as text and is found again in front of a text that is alike ahead, or it is of
another sort. -/
theorem literal_cases {literal after : List Char} (starts : Lexeme.Starts ⟨.string, literal⟩ after)
    (names : namesClosed literal = true) :
    (∃ style flags body, IsTextLiteral style flags body literal ∧
      (style.triple = false → body = closing style → after.head? ≠ some style.mark) ∧
      ∀ right, Lexeme.AlikeAhead after right → Lexeme.Starts ⟨.string, literal⟩ right) ∨
    IsOther literal := by
  obtain ⟨character, rest, written, found⟩ := starts
  have visible := Lexeme.visible_of_token found rfl
  obtain ⟨⟨⟨style, length⟩, opens⟩, closes⟩ := first_of_string found
  dsimp only at written found
  rw [← List.cons_append, ← written] at opens closes
  rw [length_of_opening opens] at closes
  obtain ⟨count, inner, total⟩ := Option.map_eq_some_iff.mp closes
  have total : length + count = literal.length := total
  have within : length ≤ literal.length := by omega
  by_cases other : style.mark = '`' ∨ style.bytes = true ∨ style.format = true
  · exact .inr (other_of_opening opens within other)
  left
  obtain ⟨notBack, noBytes, noFormat⟩ : style.mark ≠ '`' ∧ style.bytes = false ∧
      style.format = false := by simpa using other
  obtain ⟨flags, behind, same, areFlags, quotes, isLength, triple, raw, bytes, format⟩ := opening_spec opens
  rw [← List.length_append] at isLength
  have quote := is_quote_of_mark quotes notBack
  obtain ⟨opening, openingSame⟩ := closing_prefix triple
  obtain ⟨body, rfl, rfl⟩ := @start_of_append (flags ++ closing style) opening literal after
    (by rw [same, List.append_assoc, openingSame]) (isLength ▸ within)
  have plain : style.raw = false → ∀ flag ∈ flags, flag.toLower ≠ 'r' ∧ flag.toLower ≠ 'b' ∧
      flag.toLower ≠ 'f' := fun noRaw flag member =>
    ⟨lowered_ne (raw ▸ noRaw) flag member, lowered_ne (bytes ▸ noBytes) flag member,
      lowered_ne (format ▸ noFormat) flag member⟩
  have counted : count = body.length := by
    rw [isLength, @List.length_append _ (flags ++ closing style)] at total
    exact Nat.add_left_cancel total
  rw [noFormat, if_neg Bool.false_ne_true, isLength, List.append_assoc, List.drop_left, counted] at inner
  have isBody : Body style false body :=
    body_of_closing quote noBytes body.length (Nat.le_refl _) inner
      fun noRaw => names_of_literal areFlags quotes (plain noRaw) (List.append_assoc .. ▸ names)
  have isLiteral : IsTextLiteral style flags body (flags ++ closing style ++ body) :=
    ⟨List.append_assoc .., areFlags, quote, isBody⟩
  refine ⟨style, flags, body, isLiteral, ?_, ?_⟩
  · rintro single rfl
    exact no_third_mark notBack triple single openingSame
  · intro right alike
    obtain ⟨⟨_, opensRight⟩, closesRight⟩ :=
      text_literal_again isLiteral quotes noFormat opens isLength alike
    refine ⟨character, rest, written, ?_⟩
    rw [Lexeme.first_visible visible, ← List.cons_append, ← written, opensRight, closesRight]

theorem not_blank_of_flag {character : Char} (flag : isFlag character = true) :
    isBlank character = false := by
  have all : ∀ letter ∈ "rRuUbBfF".toList, isBlank letter = false := by decide
  exact all character (List.contains_iff_mem.mp flag)

theorem not_blank_of_mark {character : Char} (mark : isMark character = true) :
    isBlank character = false := by
  have cases : character = '\'' ∨ character = '"' ∨ character = '`' := by
    simpa [isMark, or_assoc] using mark
  rcases cases with rfl | rfl | rfl <;> decide

/-- A literal of another sort stands for no text. -/
theorem text_of_other {literal : List Char} (other : IsOther literal) : text? literal = none := by
  obtain ⟨flags, mark, rest, rfl, areFlags, quotes, odd⟩ := other
  obtain ⟨more, trimmed⟩ := trim_of_start (not_blank_of_mark quotes)
    (fun character isHead => not_blank_of_flag (areFlags character (List.mem_of_mem_head? isHead))) rest
  have outside : ∀ flag ∈ flags, (decide (flag ≠ '\'') && decide (flag ≠ '"')) = true := by
    intro flag member
    have all : ∀ letter ∈ "rRuUbBfF".toList, (decide (letter ≠ '\'') && decide (letter ≠ '"')) = true := by
      decide
    exact all flag (List.contains_iff_mem.mp (areFlags flag member))
  have strange : ∃ letter ∈ (flags ++ mark :: more).takeWhile (fun c => c ≠ '\'' && c ≠ '"'),
      letter.toLower ≠ 'r' ∧ letter.toLower ≠ 'u' := by
    rw [List.takeWhile_append_of_pos outside]
    rcases odd with rfl | ⟨flag, member, lowered⟩
    · exact ⟨'`', List.mem_append_right _ (by simp), by decide⟩
    · exact ⟨flag, List.mem_append_left _ member, lowered⟩
  obtain ⟨letter, member, lowered⟩ := strange
  have refused : ((((flags ++ mark :: more).takeWhile (fun c => c ≠ '\'' && c ≠ '"')).map
      Char.toLower).all fun letter => letter = 'r' || letter = 'u') = false := by
    rw [List.all_eq_false]
    exact ⟨letter.toLower, List.mem_map_of_mem member, by simpa using lowered⟩
  rw [text?, trimmed]
  simp only [refused, Bool.false_eq_true, if_false]
  exact Option.bind_fun_none ..

/-- Where a literal of another sort starts, the text after its first mark does not matter. -/
theorem first_of_other {flags : List Char} {mark character : Char} {rest more : List Char}
    (areFlags : ∀ flag ∈ flags, isFlag flag = true) (quotes : isMark mark = true)
    (odd : mark = '`' ∨ ∃ flag ∈ flags, flag.toLower ≠ 'r' ∧ flag.toLower ≠ 'u')
    (same : character :: rest = flags ++ mark :: more) :
    Lexeme.first character rest = (.stray, 1) ∨
      ∃ length, Lexeme.first character rest = (.string, length) ∧
        IsOther ((character :: rest).take length) := by
  have visible : Lexeme.IsVisible character := by
    cases flags with
    | nil =>
        obtain rfl := (List.cons.inj same).1
        exact visible_of_mark quotes
    | cons flag flags =>
        obtain rfl := (List.cons.inj same).1
        exact visible_of_flag (areFlags _ (.head _))
  have run : (flags ++ mark :: more).takeWhile isFlag = flags :=
    take_while_run areFlags (stops_cons.mpr (not_flag_of_mark quotes))
  have opens : ∃ style length, opening? (flags ++ mark :: more) = some (style, length) ∧
      flags.length + 1 ≤ length := by
    simp only [opening?, run, List.drop_left, quotes, if_true]
    refine ⟨_, _, rfl, ?_⟩
    split <;> omega
  obtain ⟨style, opening, opens, within⟩ := opens
  rw [Lexeme.first_visible visible, same, opens]
  cases closes : length? (flags ++ mark :: more) with
  | none => exact .inl rfl
  | some length =>
      refine .inr ⟨length, rfl, ?_⟩
      rw [length_of_opening opens] at closes
      obtain ⟨count, -, rfl⟩ := Option.map_eq_some_iff.mp closes
      obtain ⟨extra, total⟩ : ∃ extra, opening + count = flags.length + (extra + 1) :=
        ⟨opening + count - flags.length - 1, by omega⟩
      refine ⟨flags, mark, more.take extra, ?_, areFlags, quotes, odd⟩
      rw [total, List.take_length_add_append, List.take_succ_cons]

end TaskCab.Source.Quoted
