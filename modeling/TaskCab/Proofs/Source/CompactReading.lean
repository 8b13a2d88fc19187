import TaskCab.Proofs.Source.OddLiteral
import TaskCab.Proofs.Source.TreeCuts

/-!
# Reading compact text

The compact text of an expression denotes what the expression does, unless a backslash is left of a
joined line or a string comes after a character that is kept; then it is no plain data.
-/

namespace TaskCab.Source.Compact

open Lexeme

theorem sound_of_mem {lexemes : List Lexeme} {tail : List Char} (sound : AllSound lexemes tail)
    {lexeme : Lexeme} (member : lexeme ∈ lexemes) : ∃ after, Sound lexeme after := by
  induction lexemes with
  | nil => simp at member
  | cons first rest ih =>
      rcases List.mem_cons.mp member with rfl | later
      · exact ⟨_, sound.1⟩
      · exact ih sound.2 later

/-- What compaction writes with the comma that is held back at the end is a chain of lexemes. -/
theorem chain_compacted {lexemes : List Lexeme} (sound : AllSound lexemes []) :
    Chain (compacted initial lexemes) [] := by
  have ends : Ending [] fun state => texts (pending state) := by
    refine ⟨?_, alike_of_edges ends_nil.1 ends_nil.1⟩
    rintro ⟨behind, spaced⟩ notOpening due
    cases behind with
    | opening => exact absurd rfl notOpening
    | comma => exact is_cut_cons.mpr (by decide)
    | other => simp [IsCut, IsEdge, pending, texts]
  refine chain_append.mpr ⟨?_, chain_pending _ _⟩
  rw [List.append_nil]
  exact chain_tidy ends sound initial

theorem written_of_compacted (lexemes : List Lexeme) :
    ∀ lexeme ∈ compacted initial lexemes, IsWritten lexeme := fun lexeme member =>
  (List.mem_append.mp member).elim (written_of_tidy initial lexeme) (written_of_pending _ lexeme)

theorem hides_token {hidden : Bool} {lexeme : Lexeme} (isToken : lexeme.kind.isToken = true) :
    hides hidden [lexeme] = false := by
  cases kind : lexeme.kind <;> simp_all [hides, LexemeKind.isToken]

/-- Nothing is kept behind the last token of an expression. -/
theorem hides_compacted {lexemes : List Lexeme} (state : State) (hidden : Bool) {last : Lexeme}
    (isLast : lexemes.getLast? = some last) (isToken : last.kind.isToken = true) :
    hides hidden (compacted state lexemes) = false := by
  induction lexemes generalizing state hidden with
  | nil => simp at isLast
  | cons lexeme rest ih =>
      rw [compacted_cons, hides_append]
      cases rest with
      | cons next rest => exact ih _ _ (by simpa using isLast)
      | nil =>
          obtain rfl : lexeme = last := by simpa using isLast
          change hides _ (pending (advance state lexeme)) = false
          have behind (front : List Lexeme) : hides (hides hidden (front ++ [lexeme])) [] = false := by
            rw [hides_append]
            exact hides_token isToken
          have emits := emits state lexeme
          generalize emitted state lexeme = front, advance state lexeme = next at emits ⊢
          cases emits with
          | space _ isGap => simp [not_token_of_gap isGap] at isToken
          | joined _ isJoined => simp [isJoined, LexemeKind.isToken] at isToken
          | comma => exact hides_token rfl
          | closing => exact behind []
          | behind | opening | ordinary => exact behind _

theorem heard_ne_nil {hidden : Bool} {lexeme : Lexeme} {rest : List Lexeme}
    (isToken : lexeme.kind.isToken = true) : heard hidden (lexeme :: rest) ≠ [] := by
  cases kind : lexeme.kind <;> simp_all [heard, LexemeKind.isToken]

section

variable {trees : List Tree} {lexemes : List Lexeme} {tail : List Char}

theorem trim_of_spelled (spelled : Spelled trees lexemes tail) (sound : AllSound lexemes []) :
    Text.trim (Tree.text trees) = Tree.text trees := by
  obtain ⟨token, -, isToken, isFirst⟩ := spelled.first
  have inLexemes : token.lexeme ∈ lexemes := List.mem_of_mem_head? isFirst
  have nonempty := List.ne_nil_of_mem inLexemes
  have isLast := List.getLast?_eq_some_getLast nonempty
  obtain ⟨_, soundFirst⟩ := sound_of_mem sound inLexemes
  obtain ⟨_, soundLast⟩ := sound_of_mem sound (List.getLast_mem nonempty)
  obtain ⟨character, more, text, notBlank, -⟩ :=
    head_of_token (spelled.proper _ inLexemes) soundFirst.starts isToken
  obtain ⟨last, atEnd, lastNotBlank⟩ := last_of_token soundLast (spelled.last _ isLast)
  rw [← spelled.text]
  have start : character ∈ (texts lexemes).head? := by
    obtain ⟨rest, whole⟩ := List.head?_eq_some_iff.mp isFirst
    rw [whole, texts, text]
    rfl
  have ending : last ∈ (texts lexemes).getLast? := by
    rw [← List.dropLast_append_getLast nonempty, texts_one, List.getLast?_append,
      Option.mem_def.mp atEnd]
    rfl
  exact Text.trim_of_ends start notBlank ending lastNotBlank

theorem text_of_spelled (spelled : Spelled trees lexemes tail) (sound : AllSound lexemes []) :
    text (Tree.text trees) = texts (compacted initial lexemes) := by
  have trimmed := trim_of_spelled spelled sound
  have written := (written_tidy written_start (resumes_code rfl _) sound).1.text
  rw [text, trimmed, ← spelled.text, written, compacted, texts_append]
  simp

/-- The lexemes of an expression are those of its text by itself. -/
theorem scan_of_spelled (spelled : Spelled trees lexemes tail) (sound : AllSound lexemes []) :
    scan (Tree.text trees) = lexemes := by
  obtain ⟨token, -, isToken, isFirst⟩ := spelled.first
  obtain ⟨rest, rfl⟩ := List.head?_eq_some_iff.mp isFirst
  have visible := visible_texts sound.1.starts isToken rest []
  have chained := scan_from_chain (chain_before_end spelled.proper ends_nil.1 sound)
  rw [List.append_nil] at visible chained
  rw [← spelled.text, scan_of_visible visible, chained]
  simp [scanFrom]

/-- The tokens of compact text are those that are heard. -/
theorem lines_of_spelled (spelled : Spelled trees lexemes tail) (sound : AllSound lexemes [])
    (noComma : ∀ token ∈ (Tree.allTokens trees).head?, token.lexeme ≠ commaLexeme) :
    ∃ tokens : List Token, tokens.map Token.lexeme = heard false (compacted initial lexemes) ∧
      tokens ≠ [] ∧ (∀ token ∈ tokens, token.joined = false) ∧
      Line.ofText (Text.trim (text (Tree.text trees))) = Line.ofReversed tokens.reverse := by
  obtain ⟨next, tokens, takes⟩ :=
    @Line.takes_up_written _ (written_of_compacted lexemes) .start rfl rfl
  obtain ⟨first, inTrees, isToken, isFirst⟩ := spelled.first
  obtain ⟨rest, rfl⟩ := List.head?_eq_some_iff.mp isFirst
  have nonempty : tokens ≠ [] := by
    rintro rfl
    have none := takes.heard
    rw [compacted, tidy_first isToken (noComma first inTrees), List.cons_append] at none
    exact heard_ne_nil isToken none.symm
  refine ⟨tokens, takes.heard, nonempty, takes.unjoined, ?_⟩
  have visible : ∀ character ∈ (texts (compacted initial (first.lexeme :: rest))).head?,
      IsVisible character := by
    have visible := visible_texts sound.1.starts isToken
      (tidy (advance initial first.lexeme) rest ++ pending (arrive initial (first.lexeme :: rest))) []
    rwa [List.append_nil, ← List.cons_append, ← tidy_first isToken (noComma first inTrees)] at visible
  have scanned : scan (texts (compacted initial (first.lexeme :: rest))) =
      compacted initial (first.lexeme :: rest) := by
    have chained := scan_from_chain (chain_compacted sound)
    rw [List.append_nil] at chained
    rw [scan_of_visible visible, chained]
    simp [scanFrom]
  have gathered := takes.gathered []
  rw [List.append_nil] at gathered
  have isLast := List.getLast?_eq_some_getLast (List.cons_ne_nil first.lexeme rest)
  have hidden : next.hidden = false := by
    rw [takes.hidden]
    exact hides_compacted initial _ isLast (spelled.last _ isLast)
  have added : next.tokens = tokens.reverse := by simpa [Line.Progress.start] using takes.added
  rw [trim_text, text_of_spelled spelled sound, Line.ofText, scanned, gathered, Line.gather,
    Line.Progress.endLine, hidden, added]
  rfl

end

end TaskCab.Source.Compact

namespace TaskCab.Source.Literal

open TaskCab.Source.Compact TaskCab.Source.Literal.Part

/-- Whether trees have what the grammar asks of an expression: something, made of legal tokens, with no
comma at the end of a bracket without an item in front, no semicolon outside of brackets, and no null
character between its tokens. -/
def isLegal (trees : List Tree) : Bool :=
  !trees.isEmpty && (Tree.allTokens trees).all Token.isLegal && Tree.allFilled trees &&
    !trees.any (Tree.isSymbol ";") && !(Tree.text trees).contains '\x00'

section

variable {trees others : List Tree}

theorem any_symbol_plain (symbol : String) (parts : List Part) :
    (parts.map plain).any (Part.isSymbol symbol) = parts.any (Part.isSymbol symbol) := by
  simp [Function.comp_def]

theorem any_symbol_parts (symbol : String) (trees : List Tree) :
    (parts trees).any (Part.isSymbol symbol) = trees.any (Tree.isSymbol symbol) := by
  simp [parts_eq_map, Function.comp_def, is_symbol_part]

@[simp] theorem unread_plain (part : Part) : part.plain.unread = part.unread := by
  cases part <;> rfl

/-- A comma outside of brackets stands among the parameters of a `lambda`, which is no plain data. -/
theorem unread_of_comma (whole : Tree.Whole "," 0 trees)
    (comma : trees.any (Tree.isSymbol ",") = true) : ∃ part ∈ parts trees, part.unread = true := by
  by_cases lambda : ∃ tree ∈ trees, Tree.isWord "lambda" tree = true
  · obtain ⟨tree, member, isLambda⟩ := lambda
    refine ⟨part tree, by rw [parts_eq_map]; exact List.mem_map_of_mem member, ?_⟩
    cases tree with
    | group => simp [Tree.isWord] at isLambda
    | leaf token => simp [part, unread, show token.isWord "lambda" = true from isLambda]
  · obtain ⟨tree, member, isComma⟩ := List.any_eq_true.mp comma
    have none := Tree.no_symbol_of_whole whole (by simpa using lambda) tree member
    simp [none] at isComma

/-- A line of the parts of an expression has the value of the expression. -/
theorem line_value_same (same : (parts trees).map plain = (parts others).map plain)
    (whole : Tree.Whole "," 0 trees) (noSemicolon : trees.any (Tree.isSymbol ";") = false)
    (unjoinedAll : ∀ token ∈ (Tree.allTokens trees).tail, token.joined = false)
    (unjoinedOthers : ∀ token ∈ Tree.allTokens others, token.joined = false) :
    lineValue? (parts others) = value? trees := by
  have allOthers := unjoined_parts unjoinedOthers
  have tail : ∀ part ∈ (parts trees).tail, part.joined = false := by
    cases trees with
    | nil => simp [parts]
    | cons tree rest =>
        obtain ⟨token, more, isFirst, -⟩ := joined_part tree
        refine unjoined_parts fun other member => unjoinedAll other ?_
        simp [Tree.allTokens, isFirst, member]
  have items : item? (parts others) = value? trees := by
    rw [value?, ← item_plain tail, same,
      item_plain fun part member => allOthers part (List.mem_of_mem_tail member)]
  have kept : dropSemicolon (parts others) = parts others := by
    have none : (parts others).any (Part.isSymbol ";") = false := by
      rw [← any_symbol_plain, ← same, any_symbol_plain, any_symbol_parts, noSemicolon]
    unfold dropSemicolon
    split
    next last isLast =>
      have noSymbol := List.any_eq_false.mp none last (List.mem_of_getLast? isLast)
      rw [if_neg (by simp [noSymbol])]
    next => rfl
  rw [lineValue?, kept, starts_joined_of_unjoined allOthers]
  split
  next comma =>
    rw [hasComma, ← any_symbol_plain, ← same, any_symbol_plain, any_symbol_parts] at comma
    obtain ⟨part, member, isUnread⟩ := unread_of_comma whole comma
    have inOthers : ∃ other ∈ parts others, other.unread = true := by
      have image : part.plain ∈ (parts others).map plain := same ▸ List.mem_map_of_mem member
      obtain ⟨other, inside, isPlain⟩ := List.mem_map.mp image
      exact ⟨other, inside, by rw [← unread_plain, isPlain, unread_plain, isUnread]⟩
    rw [items_unread inOthers, value?, item_unread ⟨part, member, isUnread⟩]
    rfl
  next => simpa using items

structure Legal (trees : List Tree) : Prop where
  nonempty : Tree.allTokens trees ≠ []
  tokens : ∀ token ∈ Tree.allTokens trees, token.isLegal = true
  filled : Tree.allFilled trees = true
  noSemicolon : trees.any (Tree.isSymbol ";") = false
  noNull : '\x00' ∉ Tree.text trees

theorem legal_of_is_legal (legal : isLegal trees = true) : Legal trees := by
  simp only [isLegal, Bool.and_eq_true, Bool.not_eq_true', List.all_eq_true] at legal
  obtain ⟨⟨⟨⟨nonempty, tokens⟩, filled⟩, noSemicolon⟩, noNull⟩ := legal
  refine ⟨?_, tokens, filled, noSemicolon, by simpa using noNull⟩
  cases trees with
  | nil => simp at nonempty
  | cons tree rest =>
      obtain ⟨token, more, isFirst, -⟩ := joined_part tree
      simp [Tree.allTokens, isFirst]

theorem unjoined_of_unbroken {hidden : Bool} {lexemes : List Lexeme}
    (whole : unbroken hidden lexemes = true) : ∀ lexeme ∈ lexemes, lexeme.kind ≠ .joinedLine := by
  induction lexemes generalizing hidden with
  | nil => simp
  | cons lexeme rest ih =>
      rw [unbroken] at whole
      split at whole
      · simp at whole
      next unjoinedAll =>
        refine List.forall_mem_cons.mpr ⟨fun joined => unjoinedAll (by rw [role, joined]), ?_⟩
        split at whole
        · exact ih whole
        split at whole
        · exact ih whole
        split at whole
        · exact ih (Bool.and_eq_true_iff.mp whole).2
        · exact ih whole

variable {lexemes : List Lexeme} {tail : List Char}

/-- Where no line is joined and no string comes after a character that is kept, compact text denotes what
the expression does. -/
theorem read_unbroken (spelled : Spelled trees lexemes tail) (sound : AllSound lexemes [])
    (balanced : Tree.AllBalanced trees) (legal : Legal trees) (whole : Tree.Whole "," 0 trees)
    (noComma : ∀ token ∈ (Tree.allTokens trees).head?, token.lexeme ≠ commaLexeme)
    (isUnbroken : unbroken false lexemes = true) :
    read? (Compact.text (Tree.text trees)) = value? trees := by
  have unjoinedAll := spelled.unjoined (unjoined_of_unbroken isUnbroken)
  obtain ⟨tokens, areHeard, nonempty, unjoinedTokens, line⟩ := lines_of_spelled spelled sound noComma
  have tidied : Tidied ((Tree.allTokens trees).map Token.lexeme ++ [])
      (heard false (compacted initial lexemes)) := by
    rw [List.append_nil, ← spelled.words]
    exact @tidied_of_unbroken lexemes [] sound initial false false rfl isUnbroken
  obtain ⟨front, rest, same, tidiedRest, restores⟩ :=
    @restored trees balanced legal.filled unjoinedAll false [] _ (by simp) tidied
  obtain rfl : rest = [] := by
    cases tidiedRest
    rfl
  rw [List.append_nil] at same
  obtain ⟨others, areTokens, balancedOthers, sameParts⟩ :=
    restores tokens (areHeard.trans same) unjoinedTokens
  have equal : (parts trees).map plain = (parts others).map plain := by
    rcases sameParts with equal | ⟨dropped, -⟩
    · exact equal
    · simp at dropped
  have single :
      Line.ofReversed tokens.reverse = [⟨Line.indentOf (tokens.head nonempty).gap, tokens⟩] := by
    obtain ⟨token, more, rfl⟩ := List.exists_cons_of_ne_nil nonempty
    rw [Line.ofReversed, List.reverse_reverse]
    rfl
  rw [read?, line, single]
  dsimp only
  rw [← areTokens, Tree.of_tokens_all_tokens balancedOthers]
  exact line_value_same equal whole legal.noSemicolon unjoinedAll (areTokens ▸ unjoinedTokens)

/-- A backslash that is left, or a string behind a character that is kept, makes compact text no plain
data. -/
theorem read_broken (spelled : Spelled trees lexemes tail) (sound : AllSound lexemes [])
    (noComma : ∀ token ∈ (Tree.allTokens trees).head?, token.lexeme ≠ commaLexeme)
    (broken : unbroken false lexemes = false) :
    read? (Compact.text (Tree.text trees)) = none := by
  obtain ⟨tokens, areHeard, -, -, line⟩ := lines_of_spelled spelled sound noComma
  refine read_none fun single found => ?_
  rw [line] at found
  have isTokens := Line.tokens_of_reversed found
  rw [List.reverse_reverse] at isTokens
  obtain ⟨stray, member, isStray⟩ := @stray_of_broken lexemes initial false false rfl broken
  have inHeard : stray ∈ heard false (compacted initial lexemes) := by
    rw [compacted, heard_append]
    exact List.mem_append_left _ member
  rw [← areHeard] at inHeard
  obtain ⟨token, inTokens, rfl⟩ := List.mem_map.mp inHeard
  exact ⟨token, isTokens ▸ inTokens, by simp [unread, show token.kind = .stray from isStray]⟩

theorem no_comma_first (balanced : Tree.AllBalanced trees) (whole : Tree.Whole "," 0 trees) :
    ∀ token ∈ (Tree.allTokens trees).head?, token.lexeme ≠ commaLexeme := by
  intro token isHead
  cases trees with
  | nil => simp [Tree.allTokens] at isHead
  | cons tree rest =>
      cases tree with
      | leaf single =>
          obtain rfl : single = token := by simpa [Tree.allTokens, Tree.tokens] using isHead
          have passes := (Tree.whole_cons.mp whole).1
          intro isComma
          refine passes ⟨rfl, ?_⟩
          exact Tree.is_symbol_of_lexeme
            (@Eq.trans _ _ _ (Token.lexeme ⟨[], false, .symbol, [',']⟩) isComma rfl) ","
      | group bracket opening inner closing =>
          obtain rfl : opening = token := by simpa [Tree.allTokens, Tree.tokens] using isHead
          exact Tree.no_comma_of_bracket (.inl balanced.1.1)

/-- A literal of another sort makes neither an expression nor its compact text plain data. -/
theorem read_other (spelled : Spelled trees lexemes tail) (balanced : Tree.AllBalanced trees)
    (noComma : ∀ token ∈ (Tree.allTokens trees).head?, token.lexeme ≠ commaLexeme)
    (other : ∃ lexeme ∈ lexemes, lexeme.kind = .string ∧ Quoted.IsOther lexeme.text) :
    read? (Compact.text (Tree.text trees)) = none ∧ value? trees = none := by
  obtain ⟨front, literal, back, same, isOther, sound⟩ :=
    split_at_other spelled.proper spelled.ends spelled.chain other
  obtain ⟨leading, isLeading, isToken, isFirst⟩ := spelled.first
  have starts : ∀ first ∈ front.head?, first.kind.isToken = true ∧ first ≠ commaLexeme := by
    intro first isHead
    obtain rfl : first = leading.lexeme := by
      obtain ⟨more, rfl⟩ := List.head?_eq_some_iff.mp isHead
      simpa [same] using isFirst
    exact ⟨isToken, noComma leading isLeading⟩
  have noText := Quoted.text_of_other isOther
  constructor
  · obtain ⟨flags, mark, rest, rfl, areFlags, quotes, odd⟩ := isOther
    have text : Tree.text trees =
        Lexeme.texts front ++ (flags ++ mark :: (rest ++ Lexeme.texts back)) := by
      rw [← spelled.text, same, Lexeme.texts_append, Lexeme.texts]
      simp
    rw [List.append_assoc, List.cons_append] at sound
    rw [text]
    refine read_up_to_other areFlags quotes odd sound ?_ starts
    intro character isHead
    cases front with
    | nil => exact Quoted.not_blank_of_flag (areFlags character (List.mem_of_mem_head? isHead))
    | cons first more =>
        obtain ⟨start, others, text, notBlank, -⟩ := head_of_token
          (spelled.proper first (by simp [same])) sound.1.starts (starts first rfl).1
        obtain rfl : start = character := by simpa [Lexeme.texts, text] using isHead
        exact notBlank
  · have member : (⟨.string, literal⟩ : Lexeme) ∈ (Tree.allTokens trees).map Token.lexeme := by
      rw [← spelled.words, same]
      simp [words, LexemeKind.isToken]
    obtain ⟨token, inTrees, isLiteral⟩ := List.mem_map.mp member
    refine item_unread (parts_unread balanced ⟨token, inTrees, ?_⟩)
    obtain ⟨kind, text⟩ := @eq_of_lexeme token ⟨[], false, .string, literal⟩ isLiteral
    simp [unread, kind, text, noText]

/-- The compact text of an expression denotes what the expression does, exactly where its lexemes are not
broken by compaction or it is no plain data. -/
theorem read_compact (spelled : Spelled trees lexemes tail) (balanced : Tree.AllBalanced trees)
    (legal : Legal trees) (whole : Tree.Whole "," 0 trees) :
    read? (Compact.text (Tree.text trees)) =
      if unbroken false (Lexeme.scan (Tree.text trees)) then value? trees else none := by
  have noComma := no_comma_first balanced whole
  by_cases other : ∃ lexeme ∈ lexemes, lexeme.kind = .string ∧ Quoted.IsOther lexeme.text
  · obtain ⟨read, value⟩ := read_other spelled balanced noComma other
    rw [read, value, ite_self]
  · have readable : ∀ lexeme ∈ lexemes, lexeme.kind = .string → ¬Quoted.IsOther lexeme.text :=
      fun lexeme member string isOther => other ⟨lexeme, member, string, isOther⟩
    have chain := chain_before_end spelled.proper spelled.ends.1
      (all_sound spelled.proper spelled.ends spelled.chain readable)
    have sound := all_sound spelled.proper ends_nil chain readable
    have scanned := scan_of_spelled spelled sound
    rw [scanned]
    split
    next isUnbroken =>
      exact read_unbroken spelled sound balanced legal whole noComma isUnbroken
    next broken => exact read_broken spelled sound noComma (by simpa using broken)

/-- Decoding the compact text of an expression comes to the same as decoding the expression exactly if
compaction breaks no lexeme of plain data, and drops no comma behind another one in anything else. -/
theorem decode_compact_iff (spelled : Spelled trees lexemes tail) (balanced : Tree.AllBalanced trees)
    (legal : Legal trees) (whole : Tree.Whole "," 0 trees) :
    decode (Compact.text (Tree.text trees)) = ofTrees trees ↔
      if (value? trees).isSome then unbroken false (Lexeme.scan (Tree.text trees)) = true
      else Settled (Tree.text trees) := by
  rw [decode, ofTrees, read_compact spelled balanced legal whole]
  cases value? trees with
  | none =>
      rw [ite_self, ← text_text_iff]
      simp [String.ofList_inj]
  | some value =>
      cases unbroken false (Lexeme.scan (Tree.text trees)) with
      | true => simp
      | false => simp

end

end TaskCab.Source.Literal
