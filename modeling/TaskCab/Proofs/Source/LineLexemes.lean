import TaskCab.Proofs.Source.LiteralToken

/-!
# Lexemes of lines

Each lexeme that is scanned off a text starts what was left of it, so that a lexeme tells the form of its
text. The tokens of a line are lexemes too, with the lexemes between them as their gaps.
-/

namespace TaskCab.Source

open TaskCab.Text

namespace Lexeme

theorem first_positive (character : Char) (rest : List Char) : 0 < (first character rest).2 := by
  have symbols : ∀ symbol ∈ longSymbols, 0 < symbol.length := by decide +kernel
  unfold first
  dsimp only
  split
  · exact Nat.one_pos
  split
  · exact Nat.one_pos
  split
  · dsimp only
    omega
  split
  · split <;> simp
  split
  · exact Nat.one_pos
  split
  next opening opens =>
    split
    next length closes =>
      obtain ⟨style, start⟩ := opening
      rw [Quoted.length_of_opening opens] at closes
      obtain ⟨count, -, rfl⟩ := Option.map_eq_some_iff.mp closes
      obtain ⟨flags, rest, -, -, -, rfl, -⟩ := Quoted.opening_spec opens
      rw [Quoted.closing_length]
      dsimp only
      split <;> omega
    next => exact Nat.one_pos
  next =>
    split
    · omega
    split
    · dsimp only
      omega
    split
    · dsimp only
      rw [symbolLength]
      split
      next symbol found => exact symbols symbol (List.mem_of_find?_eq_some found)
      next => exact Nat.one_pos
    · exact Nat.one_pos

theorem scan_from_drop (count : Nat) (text : List Char) :
    scanFrom count text = scanFrom 0 (text.drop count) := by
  induction text generalizing count with
  | nil => simp [scanFrom]
  | cons character rest ih =>
      cases count with
      | zero => rfl
      | succ count => exact ih count

theorem scan_from_zero (character : Char) (rest : List Char) :
    scanFrom 0 (character :: rest) =
      ⟨(first character rest).1, (character :: rest).take (first character rest).2⟩ ::
        scanFrom ((first character rest).2 - 1) rest := rfl

/-- A lexeme with others behind it starts what was left of the text, and the others are scanned off what
it leaves. -/
theorem scan_from_cons {text : List Char} {lexeme : Lexeme} {others : List Lexeme}
    (scanned : scanFrom 0 text = lexeme :: others) (nonempty : others ≠ []) :
    ∃ after, text = lexeme.text ++ after ∧ lexeme.Starts after ∧ scanFrom 0 after = others := by
  cases text with
  | nil => simp [scanFrom] at scanned
  | cons character rest =>
      have positive := first_positive character rest
      rw [scan_from_zero] at scanned
      obtain ⟨rfl, rfl⟩ := List.cons.inj scanned
      cases found : first character rest with
      | mk kind length =>
          rw [found] at positive
          obtain ⟨count, rfl⟩ : ∃ count, length = count + 1 := ⟨length - 1, by omega⟩
          simp only [found, Nat.add_sub_cancel, List.take_succ_cons] at nonempty ⊢
          rw [scan_from_drop] at nonempty ⊢
          have within : count ≤ rest.length := by
            by_contra beyond
            rw [List.drop_of_length_le (by omega)] at nonempty
            exact nonempty rfl
          refine ⟨rest.drop count, ?_, ⟨character, rest.take count, rfl, ?_⟩, rfl⟩
          · rw [List.cons_append, List.take_append_drop]
          · simp only [List.take_append_drop, found, List.length_cons, List.length_take]
            rw [Nat.min_eq_left within]

/-- All lexemes in front of another one start what was left of the text. -/
theorem chain_of_scan {text : List Char} {lexemes others : List Lexeme}
    (scanned : scanFrom 0 text = lexemes ++ others) (nonempty : others ≠ []) :
    ∃ after, text = texts lexemes ++ after ∧ Chain lexemes after ∧ scanFrom 0 after = others := by
  induction lexemes generalizing text with
  | nil => exact ⟨text, rfl, trivial, scanned⟩
  | cons lexeme rest ih =>
      obtain ⟨after, rfl, starts, later⟩ := scan_from_cons scanned (by simp [nonempty])
      obtain ⟨behind, rfl, chain, left⟩ := ih later
      exact ⟨behind, by rw [texts, List.append_assoc], ⟨starts, chain⟩, left⟩

end Lexeme

namespace LexemeKind

def isGap : LexemeKind → Bool
  | blank | newline | comment | joinedLine | unseen => true
  | word | integer | float | string | symbol | stray => false

end LexemeKind

namespace Lexeme

inductive GapForm : Lexeme → List Char → Prop
  | newline {after : List Char} : GapForm ⟨.newline, ['\n']⟩ after
  | blank {after : List Char} {character : Char} (isBlank : isBlank character = true) :
      GapForm ⟨.blank, [character]⟩ after
  | comment {after body : List Char} (oneLine : '\n' ∉ body)
      (ends : ∀ character ∈ after.head?, character = '\n' ∨ character = '\x00') :
      GapForm ⟨.comment, '#' :: body⟩ after
  | joinedLine {after : List Char} : GapForm ⟨.joinedLine, ['\\', '\n']⟩ after
  | joinedReturn {after : List Char} : GapForm ⟨.joinedLine, ['\\', '\r', '\n']⟩ after
  | unseen {after : List Char} {character : Char} (isUnseen : isUnseen character = true) :
      GapForm ⟨.unseen, [character]⟩ after

theorem stops_of_take_while {belongs : Char → Bool} {run after : List Char}
    (same : (run ++ after).takeWhile belongs = run) : Stops belongs after := by
  have all : ∀ character ∈ run, belongs character = true := by
    intro character member
    rw [← same] at member
    exact List.mem_takeWhile_imp member
  rw [List.takeWhile_append_of_pos all] at same
  have none : after.takeWhile belongs = [] := by simpa using same
  cases after with
  | nil => simp
  | cons character after =>
      rw [stops_cons]
      by_contra belongsNext
      simp [belongsNext] at none

theorem visible_not_gap {character : Char} (visible : IsVisible character) (rest : List Char) :
    (first character rest).1.isGap = false := by
  rcases visible_kind visible rest with isToken | isStray
  · cases kind : (first character rest).1 <;> simp_all [LexemeKind.isGap, LexemeKind.isToken]
  · rw [isStray]
    rfl

/-- A backslash joins lines only where a line end comes right behind it. -/
theorem joined_form {rest after : List Char} {kind : LexemeKind}
    (found : first '\\' (rest ++ after) = (kind, rest.length + 1)) (isGap : kind.isGap = true) :
    GapForm ⟨kind, '\\' :: rest⟩ after := by
  unfold first at found
  dsimp only at found
  rw [if_neg (by decide), if_neg (by decide), if_neg (by decide), if_pos rfl] at found
  split at found
  next more same =>
    obtain ⟨rfl, length⟩ := Prod.mk.inj found
    obtain ⟨only, rfl⟩ := List.length_eq_one_iff.mp (Nat.succ.inj length).symm
    obtain rfl : only = '\n' := by simpa using (List.cons.inj same).1
    exact .joinedLine
  next more same =>
    obtain ⟨rfl, length⟩ := Prod.mk.inj found
    obtain ⟨one, two, rfl⟩ := List.length_eq_two.mp (Nat.succ.inj length).symm
    obtain ⟨rfl, rfl⟩ : one = '\r' ∧ two = '\n' := by
      have fronts := List.cons.inj same
      exact ⟨fronts.1, (List.cons.inj fronts.2).1⟩
    exact .joinedReturn
  next =>
    obtain ⟨rfl, -⟩ := Prod.mk.inj found
    simp [LexemeKind.isGap] at isGap

theorem comment_form {rest after : List Char}
    (length : rest.length = ((rest ++ after).takeWhile fun c => c ≠ '\n' && c ≠ '\x00').length) :
    GapForm ⟨.comment, '#' :: rest⟩ after := by
  have run := eq_take_while length.symm
  refine .comment ?_ ?_
  · intro member
    rw [← run] at member
    simpa using List.mem_takeWhile_imp member
  · intro next isHead
    have stop := stops_of_take_while run next isHead
    simpa [Decidable.or_iff_not_imp_left] using stop

theorem gap_form {lexeme : Lexeme} {after : List Char} (starts : lexeme.Starts after)
    (isGap : lexeme.kind.isGap = true) : GapForm lexeme after := by
  obtain ⟨character, rest, written, found⟩ := starts
  obtain ⟨kind, text⟩ := lexeme
  obtain rfl : text = character :: rest := written
  dsimp only at found isGap
  rw [List.length_cons] at found
  by_cases visible : IsVisible character
  · have notGap := visible_not_gap visible (rest ++ after)
    rw [found, isGap] at notGap
    simp at notGap
  by_cases isBackslash : character = '\\'
  · obtain rfl := isBackslash
    exact joined_form found isGap
  unfold first at found
  dsimp only at found
  split at found
  next newline =>
    obtain ⟨rfl, length⟩ := Prod.mk.inj found
    obtain rfl : rest = [] := by simpa using length
    rw [newline]
    exact .newline
  next notNewline =>
  split at found
  next blank =>
    obtain ⟨rfl, length⟩ := Prod.mk.inj found
    obtain rfl : rest = [] := by simpa using length
    exact .blank blank
  next notBlank =>
  split at found
  next isComment =>
    obtain ⟨rfl, length⟩ := Prod.mk.inj found
    obtain rfl := isComment
    rw [Nat.add_comm, Nat.add_right_cancel_iff] at length
    exact comment_form length.symm
  next notComment =>
  split at found
  next isUnseen =>
    obtain ⟨rfl, length⟩ := Prod.mk.inj found
    obtain rfl : rest = [] := by simpa using length
    exact .unseen isUnseen
  next seen =>
    exact absurd ⟨notNewline, by simpa using notBlank, notComment, isBackslash, by simpa using seen⟩
      visible

end Lexeme

/-- Tokens with the lexemes that they and the gaps in front of them are made of. A stray token hides
what it is made of. -/
inductive Laid : List Token → List Lexeme → Prop
  | nil : Laid [] []
  | token {token : Token} {rest : List Token} {skipped lexemes : List Lexeme}
      (gaps : ∀ lexeme ∈ skipped, lexeme.kind.isGap = true) (gap : token.gap = Lexeme.texts skipped)
      (joined : token.joined = true → ∃ lexeme ∈ skipped, lexeme.kind = .joinedLine)
      (isToken : token.kind.isToken = true) (laid : Laid rest lexemes) :
      Laid (token :: rest) (skipped ++ token.lexeme :: lexemes)
  | stray {token : Token} {rest : List Token} {chunk lexemes : List Lexeme}
      (stray : token.kind = .stray) (laid : Laid rest lexemes) :
      Laid (token :: rest) (chunk ++ lexemes)

theorem laid_append {left right : List Token} {leftLexemes rightLexemes : List Lexeme}
    (laidLeft : Laid left leftLexemes) (laidRight : Laid right rightLexemes) :
    Laid (left ++ right) (leftLexemes ++ rightLexemes) := by
  induction laidLeft with
  | nil => exact laidRight
  | token gaps gap joined isToken _ ih =>
      rw [List.append_assoc, List.cons_append, List.cons_append]
      exact .token gaps gap joined isToken ih
  | stray stray _ ih =>
      rw [List.append_assoc, List.cons_append]
      exact .stray stray ih

theorem laid_split {left right : List Token} {lexemes : List Lexeme}
    (laid : Laid (left ++ right) lexemes) :
    ∃ leftLexemes rightLexemes, lexemes = leftLexemes ++ rightLexemes ∧ Laid left leftLexemes ∧
      Laid right rightLexemes := by
  induction left generalizing lexemes with
  | nil => exact ⟨[], lexemes, rfl, .nil, laid⟩
  | cons token left ih =>
      cases laid with
      | token gaps gap joined isToken rest =>
          obtain ⟨before, behind, rfl, laidLeft, laidRight⟩ := ih rest
          exact ⟨_, behind, by rw [List.append_assoc, List.cons_append],
            .token gaps gap joined isToken laidLeft, laidRight⟩
      | @stray _ _ chunk _ stray rest =>
          obtain ⟨before, behind, rfl, laidLeft, laidRight⟩ := ih rest
          exact ⟨chunk ++ before, behind, by rw [List.append_assoc], .stray stray laidLeft, laidRight⟩

theorem laid_nonempty {tokens : List Token} {lexemes : List Lexeme} (laid : Laid tokens lexemes)
    (seen : ∃ token ∈ tokens, token.kind ≠ .stray) : lexemes ≠ [] := by
  induction laid with
  | nil => simp at seen
  | token => simp
  | @stray token rest chunk lexemes stray laid ih =>
      obtain ⟨other, member, notStray⟩ := seen
      rcases List.mem_cons.mp member with rfl | later
      · exact absurd stray notStray
      · have nonempty := ih ⟨other, later, notStray⟩
        simp [nonempty]

namespace Line

open Progress

/-- The lexemes that a progress has taken up: those of its tokens, and those since the last one. -/
structure Taken (progress : Progress) (lexemes skipped : List Lexeme) : Prop where
  laid : Laid progress.tokens.reverse lexemes
  gaps : ∀ lexeme ∈ skipped, lexeme.kind.isGap = true
  gap : progress.gap = Lexeme.texts skipped
  joined : progress.joined = true → ∃ lexeme ∈ skipped, lexeme.kind = .joinedLine
  parted : progress.parted = true → progress.joined = true

theorem taken_start : Taken .start [] [] := ⟨.nil, by simp, rfl, nofun, nofun⟩

theorem taken_gap {progress next : Progress} {lexemes skipped : List Lexeme} {lexeme : Lexeme}
    (taken : Taken progress lexemes skipped) (isGap : lexeme.kind.isGap = true)
    (tokens : next.tokens = progress.tokens) (gap : next.gap = progress.gap ++ lexeme.text)
    (joined : next.joined = (progress.joined || lexeme.kind = .joinedLine))
    (parted : next.parted = true → next.joined = true) :
    Taken next lexemes (skipped ++ [lexeme]) := by
  refine ⟨tokens ▸ taken.laid, ?_, ?_, ?_, parted⟩
  · intro other member
    rcases List.mem_append.mp member with inside | last
    · exact taken.gaps other inside
    · obtain rfl : other = lexeme := by simpa using last
      exact isGap
  · rw [gap, taken.gap, Lexeme.texts_append, Lexeme.texts, Lexeme.texts, List.append_nil]
  · intro joins
    rcases Bool.or_eq_true_iff.mp (joined ▸ joins) with before | last
    · obtain ⟨other, inSkipped, isJoined⟩ := taken.joined before
      exact ⟨other, List.mem_append_left _ inSkipped, isJoined⟩
    · exact ⟨lexeme, by simp, of_decide_eq_true last⟩

theorem taken_token {progress : Progress} {lexemes skipped : List Lexeme} {token : Token}
    {chunk : List Lexeme} (taken : Taken progress lexemes skipped) (laid : Laid [token] chunk) :
    Taken (progress.addToken token) (lexemes ++ chunk) [] := by
  refine ⟨?_, by simp, rfl, nofun, nofun⟩
  rw [addToken, List.reverse_cons]
  exact laid_append taken.laid laid

theorem taken_add {progress : Progress} {lexemes skipped : List Lexeme} (lexeme : Lexeme)
    (taken : Taken progress lexemes skipped) :
    ∃ more behind, lexemes ++ skipped ++ [lexeme] = more ++ behind ∧
      Taken (progress.addLexeme lexeme) more behind := by
  have gapCase {next : Progress} (isGap : lexeme.kind.isGap = true)
      (tokens : next.tokens = progress.tokens) (gap : next.gap = progress.gap ++ lexeme.text)
      (joined : next.joined = (progress.joined || lexeme.kind = .joinedLine))
      (parted : next.parted = true → next.joined = true) :
      ∃ more behind, lexemes ++ skipped ++ [lexeme] = more ++ behind ∧ Taken next more behind :=
    ⟨lexemes, skipped ++ [lexeme], List.append_assoc ..,
      taken_gap taken isGap tokens gap joined parted⟩
  have strayCase {token : Token} (stray : token.kind = .stray) :
      ∃ more behind, lexemes ++ skipped ++ [lexeme] = more ++ behind ∧
        Taken (progress.addToken token) more behind := by
    refine ⟨lexemes ++ (skipped ++ [lexeme] ++ []), [], by simp, taken_token taken ?_⟩
    exact .stray stray .nil
  have tokenCase (isToken : lexeme.kind.isToken = true) {joined : Bool}
      (joins : joined = true → progress.joined = true) :
      ∃ more behind, lexemes ++ skipped ++ [lexeme] = more ++ behind ∧
        Taken (progress.addToken ⟨progress.gap, joined, lexeme.kind, lexeme.text⟩) more behind := by
    refine ⟨lexemes ++ (skipped ++ lexeme :: []), [], by simp, taken_token taken ?_⟩
    exact @Laid.token ⟨progress.gap, joined, lexeme.kind, lexeme.text⟩ [] skipped []
      taken.gaps taken.gap (fun holds => taken.joined (joins holds)) isToken .nil
  obtain ⟨kind, text⟩ := lexeme
  cases kind with
  | blank | newline => exact gapCase rfl rfl rfl (by simp [addLexeme, skip]) taken.parted
  | comment | joinedLine | unseen => apply gapCase <;> simp [addLexeme, skip, LexemeKind.isGap]
  | string =>
      unfold addLexeme
      dsimp only
      split
      · exact strayCase rfl
      · exact tokenCase rfl taken.parted
  | word | integer | float | symbol => exact tokenCase rfl id
  | stray => exact strayCase rfl

theorem laid_of_end {progress : Progress} {lexemes skipped : List Lexeme}
    (taken : Taken progress lexemes skipped) {line : Line} (member : line ∈ progress.endLine) :
    ∃ segment behind, lexemes ++ skipped = segment ++ behind ∧ Laid line.tokens segment := by
  have ended {tokens : List Token} (found : line ∈ ofReversed tokens) :
      line.tokens = tokens.reverse := by
    unfold ofReversed at found
    split at found
    · simp at found
    next token rest same =>
      obtain rfl := List.mem_singleton.mp found
      exact same.symm
  unfold endLine at member
  split at member
  · refine ⟨lexemes ++ (skipped ++ []), [], by simp, ?_⟩
    rw [ended member, List.reverse_cons]
    exact laid_append taken.laid (.stray rfl .nil)
  · refine ⟨lexemes, skipped, rfl, ?_⟩
    rw [ended member]
    exact taken.laid

/-- The tokens of each line are laid along the lexemes that lines are gathered from. -/
theorem laid_of_gather {progress : Progress} {lexemes skipped : List Lexeme}
    (taken : Taken progress lexemes skipped) {more : List Lexeme} {line : Line}
    (member : line ∈ gather progress more) :
    ∃ before segment behind, lexemes ++ skipped ++ more = before ++ (segment ++ behind) ∧
      Laid line.tokens segment := by
  induction more generalizing progress lexemes skipped with
  | nil =>
      obtain ⟨segment, behind, same, laid⟩ := laid_of_end taken member
      exact ⟨[], segment, behind, by rw [List.append_nil, same, List.nil_append], laid⟩
  | cons lexeme rest ih =>
      rw [gather] at member
      split at member
      · rcases List.mem_append.mp member with ending | later
        · obtain ⟨segment, behind, same, laid⟩ := laid_of_end taken ending
          exact ⟨[], segment, behind ++ lexeme :: rest, by rw [same]; simp, laid⟩
        · obtain ⟨before, segment, behind, same, laid⟩ := ih taken_start later
          simp only [List.nil_append] at same
          exact ⟨lexemes ++ skipped ++ lexeme :: before, segment, behind, by rw [same]; simp, laid⟩
      · obtain ⟨next, behind, same, taken⟩ := taken_add lexeme taken
        obtain ⟨before, segment, after, whole, laid⟩ := ih taken member
        refine ⟨before, segment, after, ?_, laid⟩
        rw [← whole, ← same, List.append_assoc _ [lexeme], List.singleton_append]

theorem tokens_add (progress : Progress) (lexeme : Lexeme) {token : Token}
    (member : token ∈ progress.tokens) : token ∈ (progress.addLexeme lexeme).tokens := by
  have added (next : Token) : token ∈ (progress.addToken next).tokens := .tail _ member
  unfold addLexeme
  split
  · exact member
  · exact member
  · exact member
  · exact member
  · exact member
  · split
    · exact added _
    · exact added _
  · exact added _

theorem mem_of_reversed {tokens : List Token} {token : Token} (member : token ∈ tokens) :
    ∃ line ∈ ofReversed tokens, token ∈ line.tokens := by
  have back := List.mem_reverse.mpr member
  unfold ofReversed
  cases same : tokens.reverse with
  | nil => simp [same] at back
  | cons first rest => exact ⟨_, .head _, same ▸ back⟩

theorem mem_of_end {progress : Progress} {token : Token} (member : token ∈ progress.tokens) :
    ∃ line ∈ progress.endLine, token ∈ line.tokens := by
  unfold endLine
  split
  · exact mem_of_reversed (.tail _ member)
  · exact mem_of_reversed member

/-- The tokens that have been gathered come to stand in a line. -/
theorem mem_of_gather (lexemes : List Lexeme) {progress : Progress} {token : Token}
    (member : token ∈ progress.tokens) : ∃ line ∈ gather progress lexemes, token ∈ line.tokens := by
  induction lexemes generalizing progress with
  | nil => exact mem_of_end member
  | cons lexeme rest ih =>
      rw [gather]
      split
      · obtain ⟨line, inLines, within⟩ := mem_of_end member
        exact ⟨line, List.mem_append_left _ inLines, within⟩
      · exact ih (tokens_add progress lexeme member)

/-- The tokens of an expression within a line are laid along a chain of lexemes, in front of the token
that comes after the expression. -/
theorem lexemes_of_infix {source : List Char} {line : Line} (member : line ∈ ofText source)
    {before tokens behind : List Token} {closer : Token}
    (split : line.tokens = before ++ (tokens ++ closer :: behind))
    (seenBefore : ∃ token ∈ before, token.kind ≠ .stray) (seenCloser : closer.kind ≠ .stray) :
    ∃ lexemes skipped more, Laid tokens lexemes ∧
      (∀ lexeme ∈ skipped, lexeme.kind.isGap = true) ∧
      Lexeme.Chain (lexemes ++ skipped) (closer.text ++ more) := by
  obtain ⟨front, segment, rear, scanned, laid⟩ := laid_of_gather taken_start member
  rw [split] at laid
  obtain ⟨beforeLexemes, others, rfl, laidBefore, laid⟩ := laid_split laid
  obtain ⟨lexemes, others, rfl, laidTokens, laid⟩ := laid_split laid
  have nonempty := laid_nonempty laidBefore seenBefore
  cases laid with
  | stray stray => exact absurd stray seenCloser
  | @token _ _ skipped rest gaps gap joined isToken laidBehind =>
      have chain {text : List Char} {preceding : List Lexeme}
          (cut : Lexeme.scanFrom 0 text =
            preceding ++ (lexemes ++ skipped) ++ closer.lexeme :: (rest ++ rear)) :
          ∃ more, Lexeme.Chain (lexemes ++ skipped) (closer.text ++ more) := by
        obtain ⟨after, -, chained, left⟩ := Lexeme.chain_of_scan cut (by simp)
        have start : closer.text <+: after := by
          cases after with
          | nil => simp [Lexeme.scanFrom] at left
          | cons character after =>
              rw [Lexeme.scan_from_zero] at left
              have text : (character :: after).take _ = closer.text :=
                congrArg Lexeme.text (List.cons.inj left).1
              rw [← text]
              exact List.take_prefix _ _
        obtain ⟨more, rfl⟩ := start
        exact ⟨more, (Lexeme.chain_append.mp chained).2⟩
      have whole : Lexeme.scan source =
          front ++ beforeLexemes ++ (lexemes ++ skipped) ++ closer.lexeme :: (rest ++ rear) := by
        simpa using scanned
      unfold Lexeme.scan at whole
      split at whole
      · cases start : front ++ beforeLexemes with
        | nil => simp_all
        | cons mark preceding =>
            rw [start] at whole
            obtain ⟨more, chained⟩ := chain (List.cons.inj whole).2
            exact ⟨lexemes, skipped, more, laidTokens, gaps, chained⟩
      · obtain ⟨more, chained⟩ := chain whole
        exact ⟨lexemes, skipped, more, laidTokens, gaps, chained⟩

end Line

end TaskCab.Source
