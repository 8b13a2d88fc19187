import TaskCab.Proofs.Source.LineLexemes
import TaskCab.Proofs.Source.ReturnedLiterals

/-!
# Lines with other line ends

The lexemes and the lines of a source whose lines end in a carriage return and a line feed are those of
the source before, with the returns put in.
-/

namespace TaskCab.Source

open TaskCab.Text

namespace Lexeme

variable {character : Char} {rest text : List Char}

theorem symbol_length_le (character : Char) (rest : List Char) :
    symbolLength (character :: rest) ≤ (character :: rest).length := by
  unfold symbolLength
  split
  next symbol found =>
    have starts := List.find?_some found
    exact (List.isPrefixOf_iff_prefix.mp starts).length_le
  next => simp

theorem bare_le (character : Char) (rest : List Char) :
    (bare character rest).2 ≤ (character :: rest).length := by
  unfold bare
  split
  · exact number_le (character :: rest)
  split
  · have run := (List.takeWhile_prefix isWordPart (l := rest)).length_le
    simp only [List.length_cons]
    omega
  split
  · exact symbol_length_le character rest
  · simp

/-- What a word, a number or a symbol is does not depend on the text behind a run of characters that can
go on a token. -/
theorem bare_run (character : Char) (rest : List Char) :
    bare character rest = bare character (rest.takeWhile goesOn) := by
  have edge := bare_edge character (rest.takeWhile goesOn) (stops_drop_while goesOn rest)
  rwa [List.takeWhile_append_dropWhile] at edge

theorem bare_with_returns (noFeed : character ≠ '\n') (rest : List Char) :
    bare character (withReturns rest) = bare character rest ∧
      grown (character :: rest) (bare character rest).2 = (bare character rest).2 := by
  rw [bare_run character (withReturns rest), run_with_returns (by decide) (by decide), ← bare_run]
  refine ⟨rfl, ?_⟩
  have run : rest.takeWhile goesOn <+: rest := List.takeWhile_prefix goesOn
  have bound := bare_le character (rest.takeWhile goesOn)
  rw [← bare_run] at bound
  apply grown_of_no_feed
  · intro member
    have within : (character :: rest).take (bare character rest).2 <+: character :: rest.takeWhile goesOn :=
      List.prefix_of_prefix_length_le (List.take_prefix _ _) (List.cons_prefix_cons.mpr ⟨rfl, run⟩)
        (by rw [List.length_take]; omega)
    rcases List.mem_cons.mp (within.mem member) with same | inRun
    · exact noFeed same.symm
    · exact absurd (List.mem_takeWhile_imp inRun) (by decide)
  · have shorter := run.length_le
    simp only [List.length_cons] at bound ⊢
    omega

theorem not_newline_of_first (noFeed : character ≠ '\n') (rest : List Char) :
    (first character rest).1 ≠ .newline := by
  by_cases visible : IsVisible character
  · intro newline
    have kinds := visible_kind visible rest
    simp [newline, LexemeKind.isToken] at kinds
  · unfold first
    dsimp only
    rw [if_neg noFeed]
    split
    · simp
    split
    · simp
    split
    · split <;> simp
    split
    · simp
    next notBlank notComment notBackslash seen =>
    exact absurd ⟨noFeed, by simpa using notBlank, notComment, notBackslash, by simpa using seen⟩ visible

/-- A lexeme of the text with the returns put in is that of the text before, if it is neither stray nor
the end of a line. -/
theorem first_with_returns (noFeed : character ≠ '\n') (noComment : character ≠ '#')
    (noReturn : '\r' ∉ character :: rest) (seen : (first character (withReturns rest)).1 ≠ .stray) :
    first character (withReturns rest) =
      ((first character rest).1, grown (character :: rest) (first character rest).2) := by
  by_cases visible : IsVisible character
  · have opens := Quoted.opening_with_returns (character :: rest)
    have closes := @Quoted.length_of_returns (character :: rest) noReturn
    obtain ⟨same, grows⟩ := bare_with_returns noFeed rest
    rw [with_returns_cons noFeed] at opens closes
    rw [first_visible visible] at seen ⊢
    rw [first_visible visible]
    rw [opens] at seen ⊢
    split at seen
    next =>
      split at seen
      next length closed =>
        obtain ⟨before, isBefore, rfl⟩ := closes closed
        rw [isBefore]
      next => simp at seen
    next => rw [same, grows]
  · unfold first at seen ⊢
    dsimp only at seen ⊢
    rw [if_neg noFeed] at seen ⊢
    rw [if_neg noFeed]
    by_cases blank : isBlank character = true
    · rw [if_pos blank, if_pos blank, grown_cons noFeed]
      rfl
    rw [if_neg blank, if_neg noComment] at seen ⊢
    rw [if_neg blank, if_neg noComment]
    by_cases isBackslash : character = '\\'
    · rw [if_pos isBackslash] at seen ⊢
      rw [if_pos isBackslash]
      cases rest with
      | nil => simp [withReturns] at seen
      | cons next more =>
          have notReturn : next ≠ '\r' := fun same => noReturn (same ▸ .tail _ (.head _))
          by_cases feed : next = '\n'
          · rw [feed, with_returns_feed, isBackslash]
            rfl
          · rw [with_returns_cons feed] at seen
            simp [feed, notReturn] at seen
    by_cases unseen : isUnseen character = true
    · rw [if_neg isBackslash, if_neg isBackslash, if_pos unseen, if_pos unseen, grown_cons noFeed]
      rfl
    exact absurd ⟨noFeed, by simpa using blank, noComment, isBackslash, by simpa using unseen⟩ visible

/-- Lexemes next to those of the text with the returns put in. A return stands in front of each line end,
or belongs to the comment there. -/
inductive Returned : List Lexeme → List Lexeme → Prop
  | nil : Returned [] []
  | newline {lexemes others : List Lexeme} (rest : Returned lexemes others) :
      Returned (⟨.newline, ['\n']⟩ :: lexemes) (⟨.blank, ['\r']⟩ :: ⟨.newline, ['\n']⟩ :: others)
  | comment {lexemes others : List Lexeme} {body : List Char} (oneLine : '\n' ∉ body)
      (rest : Returned lexemes others) :
      Returned (⟨.comment, body⟩ :: ⟨.newline, ['\n']⟩ :: lexemes)
        (⟨.comment, body ++ ['\r']⟩ :: ⟨.newline, ['\n']⟩ :: others)
  | other {lexemes others : List Lexeme} {lexeme : Lexeme} (notNewline : lexeme.kind ≠ .newline)
      (rest : Returned lexemes others) :
      Returned (lexeme :: lexemes) (⟨lexeme.kind, withReturns lexeme.text⟩ :: others)

theorem scan_from_feed (rest : List Char) :
    scanFrom 0 ('\n' :: rest) = ⟨.newline, ['\n']⟩ :: scanFrom 0 rest := rfl

theorem scan_from_return (rest : List Char) :
    scanFrom 0 ('\r' :: rest) = ⟨.blank, ['\r']⟩ :: scanFrom 0 rest := by
  rw [scan_from_zero, first_of_blank (by decide)]
  rfl

def inComment (character : Char) : Bool := character ≠ '\n' && character ≠ '\x00'

/-- A comment runs up to the end of its line. -/
theorem scan_from_comment {body after : List Char}
    (inside : ∀ character ∈ body, inComment character = true) (ends : Stops inComment after) :
    scanFrom 0 ('#' :: (body ++ after)) = ⟨.comment, '#' :: body⟩ :: scanFrom 0 after := by
  have run : (body ++ after).takeWhile (fun c => c ≠ '\n' && c ≠ '\x00') = body :=
    take_while_run inside ends
  have found : first '#' (body ++ after) = (.comment, 1 + body.length) := by
    unfold first
    rw [if_neg (by decide), if_neg (by decide), if_pos rfl, run]
  exact @scan_from_starts ⟨.comment, '#' :: body⟩ after ⟨'#', body, rfl, by rw [found, Nat.add_comm]; rfl⟩

/-- A comment is the same, but for a return at the end of its line. -/
theorem returned_of_comment {body after : List Char}
    (inside : ∀ character ∈ body, inComment character = true) (ends : Stops inComment after)
    (seen : ∀ lexeme ∈ scanFrom 0 (withReturns ('#' :: (body ++ after))), lexeme.kind ≠ .stray)
    (later : ∀ rest, rest <:+ after → (∀ lexeme ∈ scanFrom 0 (withReturns rest), lexeme.kind ≠ .stray) →
      Returned (scanFrom 0 rest) (scanFrom 0 (withReturns rest))) :
    Returned (scanFrom 0 ('#' :: (body ++ after))) (scanFrom 0 (withReturns ('#' :: (body ++ after)))) := by
  have noFeed : '\n' ∉ '#' :: body := by
    intro member
    rcases List.mem_cons.mp member with same | inBody
    · simp at same
    · exact absurd (inside _ inBody) (by decide)
  rw [← List.cons_append, with_returns_run noFeed, List.cons_append] at seen ⊢
  rw [List.cons_append, scan_from_comment inside ends]
  by_cases feed : ∃ rest, after = '\n' :: rest
  · obtain ⟨rest, rfl⟩ := feed
    have moved : '#' :: (body ++ withReturns ('\n' :: rest)) =
        '#' :: ((body ++ ['\r']) ++ '\n' :: withReturns rest) := by simp [with_returns_feed]
    have insideReturn : ∀ character ∈ body ++ ['\r'], inComment character = true :=
      List.forall_mem_append.mpr ⟨inside, by decide⟩
    rw [moved, scan_from_comment insideReturn (stops_cons.mpr (by decide)), scan_from_feed] at seen ⊢
    rw [scan_from_feed]
    exact .comment noFeed (later rest (List.suffix_cons _ _)
      fun lexeme member => seen lexeme (.tail _ (.tail _ member)))
  · have endsReturned : Stops inComment (withReturns after) := by
      cases after with
      | nil => exact stops_nil
      | cons character rest =>
          have notFeed : character ≠ '\n' := fun same => feed ⟨rest, by rw [same]⟩
          rw [with_returns_cons notFeed]
          exact stops_cons.mpr (stops_cons.mp ends)
    rw [scan_from_comment inside endsReturned] at seen ⊢
    have other := @Returned.other _ _ ⟨.comment, '#' :: body⟩ (by simp) (later after (List.suffix_refl _)
      fun lexeme member => seen lexeme (.tail _ member))
    rwa [with_returns_of_no_feed noFeed] at other

/-- The lexemes of a text with the returns put in. -/
theorem returned_of_scan_from (bound : Nat) {text : List Char} (within : text.length ≤ bound)
    (noReturn : '\r' ∉ text) (seen : ∀ lexeme ∈ scanFrom 0 (withReturns text), lexeme.kind ≠ .stray) :
    Returned (scanFrom 0 text) (scanFrom 0 (withReturns text)) := by
  induction bound generalizing text with
  | zero =>
      obtain rfl : text = [] := List.length_eq_zero_iff.mp (by omega)
      exact .nil
  | succ bound ih =>
  cases text with
  | nil => exact .nil
  | cons character rest =>
      have noLater : '\r' ∉ rest := fun member => noReturn (.tail _ member)
      have shorter : rest.length ≤ bound := by simpa using within
      by_cases feed : character = '\n'
      · obtain rfl := feed
        rw [with_returns_feed, scan_from_return, scan_from_feed] at seen ⊢
        rw [scan_from_feed]
        exact .newline (ih shorter noLater fun lexeme member => seen lexeme (.tail _ (.tail _ member)))
      by_cases isComment : character = '#'
      · obtain rfl := isComment
        have whole := @List.takeWhile_append_dropWhile _ inComment rest
        rw [← whole] at seen ⊢
        apply returned_of_comment (fun other member => List.mem_takeWhile_imp member)
          (stops_drop_while inComment rest) seen
        intro behind isSuffix seenBehind
        have suffix := isSuffix.trans (List.dropWhile_suffix inComment)
        exact ih (suffix.length_le.trans shorter) (fun member => noLater (suffix.mem member)) seenBehind
      rw [with_returns_cons feed, scan_from_zero character (withReturns rest)] at seen ⊢
      have same := first_with_returns feed isComment noReturn (seen _ (.head _))
      rw [same] at seen ⊢
      have notNewline := not_newline_of_first feed rest
      have positive := first_positive character rest
      rw [scan_from_zero]
      generalize first character rest = found at seen notNewline positive ⊢
      obtain ⟨kind, length⟩ := found
      cases length with
      | zero => simp at positive
      | succ count =>
          have text := take_with_returns (character :: rest) (count + 1)
          rw [with_returns_cons feed] at text
          dsimp only at seen ⊢
          rw [text, grown_cons feed, Nat.add_sub_cancel, scan_from_drop, drop_with_returns] at seen
          rw [text, grown_cons feed, Nat.add_sub_cancel, Nat.add_sub_cancel, scan_from_drop count,
            scan_from_drop (grown rest count), drop_with_returns]
          exact .other notNewline (ih (by rw [List.length_drop]; omega)
            (fun member => noLater (List.mem_of_mem_drop member))
            fun lexeme member => seen lexeme (.tail _ member))

theorem returned_of_scan {text : List Char} (noReturn : '\r' ∉ text)
    (seen : ∀ lexeme ∈ scan (withReturns text), lexeme.kind ≠ .stray) :
    Returned (scan text) (scan (withReturns text)) := by
  by_cases mark : ∃ rest, text = '\ufeff' :: rest
  · obtain ⟨rest, rfl⟩ := mark
    rw [with_returns_cons (by decide)] at seen ⊢
    exact @Returned.other _ _ ⟨.blank, ['\ufeff']⟩ (by simp) (returned_of_scan_from _ (Nat.le_refl _)
      (fun member => noReturn (.tail _ member)) fun lexeme member => seen lexeme (.tail _ member))
  · have noMark : text.head? ≠ some '\ufeff' := fun isHead => mark (List.head?_eq_some_iff.mp isHead)
    have onLine : OnLine ['\ufeff'] := by decide
    have plain := scan_of_no_mark noMark
    have plainReturned := scan_of_no_mark (mt (head_with_returns onLine text).mp noMark)
    rw [plainReturned] at seen ⊢
    rw [plain]
    exact returned_of_scan_from _ (Nat.le_refl _) noReturn seen

end Lexeme

/-! ## Lines -/

def Token.returned (token : Token) : Token :=
  ⟨withReturns token.gap, token.joined, token.kind, withReturns token.text⟩

namespace Token

theorem is_symbol_returned (token : Token) {symbol : String} (onLine : OnLine symbol.toList) :
    token.returned.isSymbol symbol = token.isSymbol symbol :=
  congrArg (_ && ·) (decide_eq_decide.mpr (with_returns_eq_iff onLine))

theorem is_word_returned (token : Token) {word : String} (onLine : OnLine word.toList) :
    token.returned.isWord word = token.isWord word :=
  congrArg (_ && ·) (decide_eq_decide.mpr (with_returns_eq_iff onLine))

theorem opens_returned (token : Token) : token.returned.opens = token.opens := by
  simp only [opens, is_symbol_returned token (by decide : OnLine "(".toList),
    is_symbol_returned token (by decide : OnLine "[".toList),
    is_symbol_returned token (by decide : OnLine "\x7b".toList)]

theorem closes_returned (token : Token) : token.returned.closes = token.closes := by
  simp only [closes, is_symbol_returned token (by decide : OnLine ")".toList),
    is_symbol_returned token (by decide : OnLine "]".toList),
    is_symbol_returned token (by decide : OnLine "\x7d".toList)]

end Token

namespace Line

open Progress

def returned (line : Line) : Line := ⟨line.indent, line.tokens.map Token.returned⟩

/-- Whether a source has no place where a line cannot go on. -/
def Parses (source : List Char) : Prop :=
  ∀ line ∈ ofText source, ∀ token ∈ line.tokens, token.kind ≠ .stray

instance (source : List Char) : Decidable (Parses source) :=
  inferInstanceAs (Decidable (∀ line ∈ ofText source, ∀ token ∈ line.tokens, token.kind ≠ .stray))

/-- Lines without a stray token are gathered from lexemes that are not stray. -/
theorem seen_of_gather {progress : Progress} {lexemes : List Lexeme}
    (seen : ∀ line ∈ gather progress lexemes, ∀ token ∈ line.tokens, token.kind ≠ .stray) :
    ∀ lexeme ∈ lexemes, lexeme.kind ≠ .stray := by
  induction lexemes generalizing progress with
  | nil => simp
  | cons lexeme rest ih =>
      rw [gather] at seen
      split at seen
      next ending =>
        refine List.forall_mem_cons.mpr ⟨?_, ih fun line member => seen line (List.mem_append_right _ member)⟩
        simp only [Bool.and_eq_true, decide_eq_true_eq] at ending
        simp [ending.1.1]
      next =>
        refine List.forall_mem_cons.mpr ⟨?_, ih seen⟩
        intro stray
        obtain ⟨kind, text⟩ := lexeme
        obtain rfl : kind = .stray := stray
        obtain ⟨line, inLines, within⟩ := @mem_of_gather rest (progress.addLexeme ⟨.stray, text⟩) _ (.head _)
        exact seen line inLines _ within rfl

theorem margin_step_return (state : Margin × Nat) :
    marginStep (marginStep state '\r') '\n' = marginStep state '\n' := by
  obtain ⟨margin, column⟩ := state
  cases margin <;> rfl

theorem indent_of_returned (gap : List Char) : indentOf (withReturns gap) = indentOf gap :=
  congrArg Prod.snd (foldl_with_returns margin_step_return _ gap)

namespace Progress

def returned (progress : Progress) : Progress :=
  ⟨progress.depth, withReturns progress.gap, progress.joined, progress.parted, progress.hidden,
    progress.tokens.map Token.returned⟩

theorem skip_returned (progress : Progress) (lexeme : Lexeme) :
    progress.returned.skip ⟨lexeme.kind, withReturns lexeme.text⟩ = (progress.skip lexeme).returned := by
  simp [skip, returned, with_returns_append]

theorem add_token_returned (progress : Progress) (token : Token) :
    progress.returned.addToken token.returned = (progress.addToken token).returned := by
  simp [addToken, returned, Token.opens_returned, Token.closes_returned, withReturns]

theorem add_lexeme_returned (progress : Progress) (lexeme : Lexeme) :
    progress.returned.addLexeme ⟨lexeme.kind, withReturns lexeme.text⟩ =
      (progress.addLexeme lexeme).returned := by
  have skipped := skip_returned progress lexeme
  have added (joined : Bool) (kind : LexemeKind) (text : List Char) :=
    add_token_returned progress ⟨progress.gap, joined, kind, text⟩
  obtain ⟨kind, text⟩ := lexeme
  cases kind with
  | blank | newline => exact skipped
  | comment | joinedLine | unseen =>
      unfold addLexeme
      dsimp only
      rw [skipped]
      rfl
  | string =>
      unfold addLexeme
      dsimp only
      rw [show progress.returned.hidden = progress.hidden from rfl]
      split
      · exact added false .stray []
      · exact added progress.parted .string text
  | word | integer | float | symbol | stray => exact added progress.joined _ text

theorem of_reversed_returned (tokens : List Token) :
    ofReversed (tokens.map Token.returned) = (ofReversed tokens).map Line.returned := by
  unfold ofReversed
  rw [← List.map_reverse]
  cases tokens.reverse with
  | nil => rfl
  | cons token rest =>
      rw [List.map_cons]
      exact congrArg (fun indent => [Line.mk indent _]) (indent_of_returned token.gap)

theorem end_line_returned (progress : Progress) :
    progress.returned.endLine = progress.endLine.map Line.returned := by
  have same : (progress.returned.hidden && !progress.returned.tokens.isEmpty) =
      (progress.hidden && !progress.tokens.isEmpty) := by simp [returned]
  unfold endLine
  rw [same, ← of_reversed_returned]
  split <;> rfl

/-- What stands behind the last token does not matter, unless the line ends in a stray token. -/
theorem end_line_of_skip {progress : Progress} {lexeme : Lexeme}
    (seen : ∀ line ∈ (progress.skip lexeme).endLine, ∀ token ∈ line.tokens, token.kind ≠ .stray) :
    (progress.skip lexeme).endLine = progress.endLine := by
  unfold endLine at seen ⊢
  change ∀ line ∈ ofReversed (if progress.hidden && !progress.tokens.isEmpty then _ else _), _ at seen
  change ofReversed (if progress.hidden && !progress.tokens.isEmpty then _ else _) = _
  split at seen
  next =>
    obtain ⟨line, inLines, within⟩ := @mem_of_reversed _ (Token.stray (progress.skip lexeme).gap) (.head _)
    exact absurd rfl (seen line inLines _ within)
  next shown => rw [if_neg shown, if_neg shown]; rfl

end Progress

theorem gather_return {lexemes others : List Lexeme}
    (later : ∀ {progress : Progress},
      (∀ line ∈ gather progress.returned others, ∀ token ∈ line.tokens, token.kind ≠ .stray) →
        gather progress.returned others = (gather progress lexemes).map Line.returned)
    {progress : Progress}
    (seen : ∀ line ∈ gather (progress.returned.skip ⟨.blank, ['\r']⟩) (⟨.newline, ['\n']⟩ :: others),
      ∀ token ∈ line.tokens, token.kind ≠ .stray) :
    gather (progress.returned.skip ⟨.blank, ['\r']⟩) (⟨.newline, ['\n']⟩ :: others) =
      (gather progress (⟨.newline, ['\n']⟩ :: lexemes)).map Line.returned := by
  have grown : (progress.returned.skip ⟨.blank, ['\r']⟩).addLexeme ⟨.newline, ['\n']⟩ =
      (progress.addLexeme ⟨.newline, ['\n']⟩).returned := by
    simp [addLexeme, skip, Progress.returned, with_returns_append, with_returns_feed]
    rfl
  have ends : (!(progress.returned.skip ⟨.blank, ['\r']⟩).tokens.isEmpty) = !progress.tokens.isEmpty := by
    simp [skip, Progress.returned]
  rw [gather, ends, grown] at seen ⊢
  rw [gather]
  change ∀ line ∈ (if (_ && decide (progress.depth = 0) && _) = true then _ else _), _ at seen
  change (if (_ && decide (progress.depth = 0) && _) = true then _ else _) = _
  split at seen
  next ending =>
    rw [if_pos ending, if_pos ending, List.map_append, ← end_line_returned]
    rw [end_line_of_skip fun line member => seen line (List.mem_append_left _ member)]
    exact congrArg (_ ++ ·) (@later .start fun line member => seen line (List.mem_append_right _ member))
  next going =>
    rw [if_neg going, if_neg going]
    exact later seen

/-- Gathering keeps the returns where they are put in. -/
theorem gather_returned {lexemes others : List Lexeme} (returned : Lexeme.Returned lexemes others)
    {progress : Progress}
    (seen : ∀ line ∈ gather progress.returned others, ∀ token ∈ line.tokens, token.kind ≠ .stray) :
    gather progress.returned others = (gather progress lexemes).map Line.returned := by
  induction returned generalizing progress with
  | nil => exact end_line_returned progress
  | newline rest ih =>
      rw [gather, if_neg (by simp)] at seen ⊢
      exact gather_return ih seen
  | @comment lexemes others body oneLine rest ih =>
      have same : progress.returned.addLexeme ⟨.comment, body ++ ['\r']⟩ =
          (progress.addLexeme ⟨.comment, body⟩).returned.skip ⟨.blank, ['\r']⟩ := by
        simp [addLexeme, skip, Progress.returned, with_returns_append, with_returns_of_no_feed oneLine]
      have before : gather progress (⟨.comment, body⟩ :: ⟨.newline, ['\n']⟩ :: lexemes) =
          gather (progress.addLexeme ⟨.comment, body⟩) (⟨.newline, ['\n']⟩ :: lexemes) := by
        rw [gather, if_neg (by simp)]
      rw [gather, if_neg (by simp), same] at seen ⊢
      rw [before]
      exact gather_return ih seen
  | @other lexemes others lexeme notNewline rest ih =>
      rw [gather, if_neg (by simp [notNewline]), add_lexeme_returned] at seen ⊢
      rw [gather, if_neg (by simp [notNewline])]
      exact ih seen

/-- The lines of a source with the returns put in. -/
theorem of_text_returned {source : List Char} (noReturn : '\r' ∉ source)
    (parses : Parses (withReturns source)) :
    ofText (withReturns source) = (ofText source).map Line.returned :=
  @gather_returned _ _ (Lexeme.returned_of_scan noReturn (seen_of_gather parses)) .start parses

end Line

end TaskCab.Source
