import TaskCab.Proofs.Source.TidiedTokens

/-!
# Lexemes of an expression

The tokens of an expression are laid along lexemes that start at its first token. Either compaction reads
all of them as the scanner does, or one is a literal that stands for no text.
-/

namespace TaskCab.Source

open Lexeme

/-- Whether a token is one that a source without a syntax error can have: it is known, its characters are
no blanks unless it is a literal, and the escapes of a literal are complete. -/
def Token.isLegal (token : Token) : Bool :=
  token.kind ≠ .stray && (!token.kind.isBare || token.text.all fun c => !Text.isBlank c) &&
    (token.kind ≠ .string || Quoted.namesClosed token.text)

namespace Token

variable {token : Token}

theorem known_of_legal (legal : token.isLegal = true) : token.kind ≠ .stray := by
  simp only [isLegal, Bool.and_eq_true, decide_eq_true_eq] at legal
  exact legal.1.1

theorem visible_of_legal (legal : token.isLegal = true) (bare : token.kind.isBare = true) :
    ∀ character ∈ token.text, Text.isBlank character = false := by
  simp only [isLegal, Bool.and_eq_true, Bool.or_eq_true, bare] at legal
  simpa using legal.1.2

theorem names_of_legal (legal : token.isLegal = true) (string : token.kind = .string) :
    Quoted.namesClosed token.text = true := by
  simp only [isLegal, Bool.and_eq_true, Bool.or_eq_true, string] at legal
  simpa using legal.2

end Token

/-- What tokens have to do with the lexemes that they and the gaps in front of them are made of. -/
structure Spells (tokens : List Token) (lexemes : List Lexeme) : Prop where
  texts : texts lexemes = Tree.tokensText tokens
  words : Compact.words lexemes = tokens.map Token.lexeme
  origin : ∀ lexeme ∈ lexemes, lexeme.kind.isGap = true ∨ ∃ token ∈ tokens, lexeme = token.lexeme
  unjoined : (∀ lexeme ∈ lexemes, lexeme.kind ≠ .joinedLine) → ∀ token ∈ tokens, token.joined = false
  last : ∀ lexeme ∈ lexemes.getLast?, lexeme.kind.isToken = true

theorem last_is_token {token : Token} {lexemes : List Lexeme} (isToken : token.kind.isToken = true)
    (last : ∀ lexeme ∈ lexemes.getLast?, lexeme.kind.isToken = true) :
    ∀ lexeme ∈ (token.lexeme :: lexemes).getLast?, lexeme.kind.isToken = true := by
  intro lexeme isLast
  rw [List.getLast?_cons] at isLast
  cases back : lexemes.getLast? with
  | none =>
      obtain rfl : token.lexeme = lexeme := by simpa [back] using isLast
      exact isToken
  | some other =>
      obtain rfl : other = lexeme := by simpa [back] using isLast
      exact last other back

theorem spells_nil : Spells [] [] := ⟨rfl, rfl, by simp, by simp, by simp⟩

theorem spells_cons {token : Token} {tokens : List Token} {skipped lexemes : List Lexeme}
    (gaps : ∀ lexeme ∈ skipped, lexeme.kind.isGap = true) (gap : token.gap = Lexeme.texts skipped)
    (joined : token.joined = true → ∃ lexeme ∈ skipped, lexeme.kind = .joinedLine)
    (isToken : token.kind.isToken = true) (spells : Spells tokens lexemes) :
    Spells (token :: tokens) (skipped ++ token.lexeme :: lexemes) := by
  have noWords : Compact.words skipped = [] := List.filter_eq_nil_iff.mpr fun lexeme member => by
    simp [Compact.not_token_of_gap (gaps lexeme member)]
  refine ⟨?_, ?_, ?_, ?_, ?_⟩
  · rw [texts_append, Lexeme.texts, spells.texts, Tree.tokensText, gap, List.append_assoc]
    rfl
  · have same := Compact.words_token (show token.lexeme.kind.isToken = true from isToken) lexemes
    unfold Compact.words at noWords same ⊢
    rw [List.filter_append, noWords, same, List.nil_append, List.map_cons, ← spells.words]
    rfl
  · intro lexeme member
    rcases List.mem_append.mp member with inGap | later
    · exact .inl (gaps lexeme inGap)
    rcases List.mem_cons.mp later with rfl | later
    · exact .inr ⟨token, .head _, rfl⟩
    rcases spells.origin lexeme later with isGap | ⟨other, inRest, same⟩
    · exact .inl isGap
    · exact .inr ⟨other, .tail _ inRest, same⟩
  · intro unjoined
    refine List.forall_mem_cons.mpr ⟨?_, spells.unjoined fun lexeme member =>
      unjoined lexeme (List.mem_append_right _ (.tail _ member))⟩
    refine Bool.eq_false_iff.mpr fun joins => ?_
    obtain ⟨lexeme, member, isJoined⟩ := joined joins
    exact unjoined lexeme (List.mem_append_left _ member) isJoined
  · intro lexeme isLast
    apply last_is_token isToken spells.last
    simpa [List.getLast?_append, List.getLast?_cons] using isLast

theorem spells_of_laid {tokens : List Token} {lexemes : List Lexeme} (laid : Laid tokens lexemes)
    (known : ∀ token ∈ tokens, token.kind ≠ .stray) : Spells tokens lexemes := by
  induction laid with
  | nil => exact spells_nil
  | token gaps gap joined isToken _ ih =>
      exact spells_cons gaps gap joined isToken (ih fun other member => known other (.tail _ member))
  | stray stray => exact absurd stray (known _ (.head _))

namespace Compact

def Ends (tail : List Char) : Prop := IsEdge tail ∧ ∀ character ∈ tail.head?, character ≠ '\x00'

theorem ends_nil : Ends [] := ⟨by simp [IsEdge], by simp⟩

/-- A lexeme that is known, has no blanks in it unless it is a literal, and is complete if it is one. -/
structure Proper (lexeme : Lexeme) : Prop where
  known : lexeme.kind ≠ .stray
  visible : lexeme.kind.isBare = true → ∀ character ∈ lexeme.text, Text.isBlank character = false
  names : lexeme.kind = .string → Quoted.namesClosed lexeme.text = true
  noNull : '\x00' ∉ lexeme.text

/-- A proper lexeme is read by compaction as by the scanner, or it is a literal that stands for no text. -/
theorem sound_or_other {lexeme : Lexeme} {after : List Char} (proper : Proper lexeme)
    (starts : lexeme.Starts after) (noNull : ∀ character ∈ after.head?, character ≠ '\x00') :
    Sound lexeme after ∨ lexeme.kind = .string ∧ Quoted.IsOther lexeme.text := by
  have comment : lexeme.kind = .comment → ∀ character ∈ after.head?, character = '\n' := by
    intro isComment character isHead
    cases gap_form starts (by rw [isComment]; rfl) with
    | comment oneLine ends =>
        exact (ends character isHead).resolve_right (noNull character isHead)
    | newline | blank | joinedLine | joinedReturn | unseen => simp at isComment
  by_cases string : lexeme.kind = .string
  · obtain ⟨kind, text⟩ := lexeme
    obtain rfl : kind = .string := string
    rcases Quoted.literal_cases starts (proper.names rfl) with found | other
    · exact .inl ⟨starts, proper.known, proper.visible, fun _ => found, comment⟩
    · exact .inr ⟨rfl, other⟩
  · exact .inl ⟨starts, proper.known, proper.visible, fun isString => absurd isString string, comment⟩

variable {lexemes : List Lexeme} {tail : List Char}

theorem mem_texts {character : Char} (member : character ∈ texts lexemes) :
    ∃ lexeme ∈ lexemes, character ∈ lexeme.text := by
  induction lexemes with
  | nil => simp [texts] at member
  | cons lexeme rest ih =>
      rcases List.mem_append.mp member with first | later
      · exact ⟨lexeme, .head _, first⟩
      · obtain ⟨other, inRest, inText⟩ := ih later
        exact ⟨other, .tail _ inRest, inText⟩

theorem head_not_null (proper : ∀ lexeme ∈ lexemes, Proper lexeme) (ends : Ends tail) :
    ∀ character ∈ (texts lexemes ++ tail).head?, character ≠ '\x00' := by
  rintro character isHead rfl
  cases text : texts lexemes with
  | nil => exact ends.2 _ (by rwa [text] at isHead) rfl
  | cons first rest =>
      obtain rfl : first = '\x00' := by simpa [text] using isHead
      obtain ⟨lexeme, member, inText⟩ := @mem_texts lexemes '\x00' (by rw [text]; exact .head _)
      exact (proper lexeme member).noNull inText

/-- Lexemes among which no literal is of another sort are read by compaction as by the scanner. -/
theorem all_sound (proper : ∀ lexeme ∈ lexemes, Proper lexeme) (ends : Ends tail)
    (chain : Chain lexemes tail)
    (readable : ∀ lexeme ∈ lexemes, lexeme.kind = .string → ¬Quoted.IsOther lexeme.text) :
    AllSound lexemes tail := by
  induction lexemes with
  | nil => trivial
  | cons lexeme rest ih =>
      obtain ⟨first, properRest⟩ := List.forall_mem_cons.mp proper
      refine ⟨?_, ih properRest chain.2 fun other member => readable other (.tail _ member)⟩
      exact (sound_or_other first chain.1 (head_not_null properRest ends)).resolve_right
        fun ⟨string, other⟩ => readable lexeme (.head _) string other

/-- Up to the first literal of another sort, lexemes are read by compaction as by the scanner. -/
theorem split_at_other (proper : ∀ lexeme ∈ lexemes, Proper lexeme) (ends : Ends tail)
    (chain : Chain lexemes tail)
    (other : ∃ lexeme ∈ lexemes, lexeme.kind = .string ∧ Quoted.IsOther lexeme.text) :
    ∃ front literal back, lexemes = front ++ ⟨.string, literal⟩ :: back ∧ Quoted.IsOther literal ∧
      AllSound front (literal ++ (texts back ++ tail)) := by
  induction lexemes with
  | nil => simp at other
  | cons lexeme rest ih =>
      obtain ⟨first, properRest⟩ := List.forall_mem_cons.mp proper
      obtain ⟨kind, text⟩ := lexeme
      by_cases now : kind = .string ∧ Quoted.IsOther text
      · obtain ⟨rfl, isOther⟩ := now
        exact ⟨[], text, rest, rfl, isOther, trivial⟩
      · obtain ⟨found, member, isOther⟩ := other
        have later : found ∈ rest := (List.mem_cons.mp member).resolve_left (by
          rintro rfl
          exact now isOther)
        obtain ⟨front, literal, back, rfl, literalOther, sound⟩ :=
          ih properRest chain.2 ⟨found, later, isOther⟩
        refine ⟨⟨kind, text⟩ :: front, literal, back, rfl, literalOther, ?_, sound⟩
        have read := (sound_or_other first chain.1 (head_not_null properRest ends)).resolve_right now
        simpa [texts_append, texts] using read

theorem starts_comment_again {body shared : List Char} (oneLine : '\n' ∉ body) (noNull : '\x00' ∉ body)
    (ends : ∀ character ∈ shared.head?, character = '\n') : Starts ⟨.comment, '#' :: body⟩ shared := by
  have commented (rest : List Char) : first '#' rest =
      (.comment, 1 + (rest.takeWhile fun c => c ≠ '\n' && c ≠ '\x00').length) := rfl
  have inside : ∀ character ∈ body, (character ≠ '\n' && character ≠ '\x00') = true := by
    intro character member
    have notNewline : character ≠ '\n' := fun same => oneLine (same ▸ member)
    have notNull : character ≠ '\x00' := fun same => noNull (same ▸ member)
    simp [notNewline, notNull]
  have behind : shared.takeWhile (fun c => c ≠ '\n' && c ≠ '\x00') = [] := by
    cases shared with
    | nil => rfl
    | cons character rest =>
        obtain rfl := ends character rfl
        rfl
  refine ⟨'#', body, rfl, ?_⟩
  rw [commented, List.takeWhile_append_of_pos inside, behind, List.append_nil, List.length_cons,
    Nat.add_comm]

theorem starts_before_end {lexeme : Lexeme} {shared : List Char} (sound : Sound lexeme (shared ++ tail))
    (noNull : '\x00' ∉ lexeme.text) (edge : IsEdge tail) : lexeme.Starts shared := by
  have alike : AlikeAhead (shared ++ tail) shared := by
    have same := alike_append shared (alike_of_edges edge ends_nil.1)
    rwa [List.append_nil] at same
  cases kind : lexeme.kind with
  | word | integer | float | symbol | string => exact starts_token_again sound (by rw [kind]; rfl) alike
  | stray => exact absurd kind sound.known
  | blank | newline | comment | joinedLine | unseen =>
      cases gap_form sound.starts (by rw [kind]; rfl) with
      | newline => exact ⟨'\n', [], rfl, rfl⟩
      | blank isBlank => exact ⟨_, [], rfl, first_of_blank isBlank _⟩
      | unseen isUnseen => exact ⟨_, [], rfl, first_of_unseen isUnseen _⟩
      | joinedLine => exact ⟨'\\', ['\n'], rfl, rfl⟩
      | joinedReturn => exact ⟨'\\', ['\r', '\n'], rfl, rfl⟩
      | comment oneLine =>
          refine starts_comment_again oneLine (fun member => noNull (.tail _ member)) fun character isHead => ?_
          exact sound.comment rfl character (by simp [Option.mem_def.mp isHead])

theorem chain_before_end (proper : ∀ lexeme ∈ lexemes, Proper lexeme) (edge : IsEdge tail)
    (sound : AllSound lexemes tail) : Chain lexemes [] := by
  induction lexemes with
  | nil => trivial
  | cons lexeme rest ih =>
      obtain ⟨first, properRest⟩ := List.forall_mem_cons.mp proper
      refine ⟨?_, ih properRest sound.2⟩
      rw [List.append_nil]
      exact starts_before_end sound.1 first.noNull edge

theorem visible_texts {lexeme : Lexeme} {after : List Char} (starts : lexeme.Starts after)
    (isToken : lexeme.kind.isToken = true) (rest : List Lexeme) (more : List Char) :
    ∀ character ∈ (texts (lexeme :: rest) ++ more).head?, IsVisible character := by
  obtain ⟨first, others, text, found⟩ := starts
  rw [texts, text]
  intro character isHead
  obtain rfl : first = character := by simpa using isHead
  exact visible_of_token found isToken

theorem head_of_token {lexeme : Lexeme} {after : List Char} (proper : Proper lexeme)
    (starts : lexeme.Starts after) (isToken : lexeme.kind.isToken = true) :
    ∃ character rest, lexeme.text = character :: rest ∧ Text.isBlank character = false ∧
      IsVisible character := by
  obtain ⟨character, rest, text, found⟩ := starts
  refine ⟨character, rest, text, ?_, visible_of_token found isToken⟩
  cases kind : lexeme.kind with
  | word | integer | float | symbol =>
      exact proper.visible (by rw [kind]; rfl) character (text ▸ .head _)
  | string =>
      rw [kind] at found
      obtain ⟨⟨⟨style, length⟩, opens⟩, -⟩ := Quoted.first_of_string found
      obtain ⟨flags, more, same, areFlags, quotes, -⟩ := Quoted.opening_spec opens
      cases flags with
      | nil =>
          obtain ⟨rfl, -⟩ := List.cons.inj same
          exact Quoted.not_blank_of_mark quotes
      | cons flag flags =>
          obtain ⟨rfl, -⟩ := List.cons.inj same
          exact Quoted.not_blank_of_flag (areFlags _ (.head _))
  | blank | newline | comment | joinedLine | unseen | stray => simp [kind, LexemeKind.isToken] at isToken

theorem last_of_token {lexeme : Lexeme} {after : List Char} (sound : Sound lexeme after)
    (isToken : lexeme.kind.isToken = true) :
    ∃ last ∈ lexeme.text.getLast?, Text.isBlank last = false := by
  obtain ⟨character, rest, text, found⟩ := sound.starts
  cases kind : lexeme.kind with
  | word | integer | float | symbol =>
      have nonempty : lexeme.text ≠ [] := by simp [text]
      exact ⟨_, List.getLast?_eq_some_getLast nonempty,
        sound.visible (by rw [kind]; rfl) _ (List.getLast_mem nonempty)⟩
  | string =>
      obtain ⟨style, flags, body, ⟨same, -, quote, isBody⟩, -⟩ := sound.literal kind
      refine ⟨style.mark, by simp [same, List.getLast?_append, Quoted.last_of_body isBody], ?_⟩
      rcases quote with quotes | quotes <;> rw [quotes] <;> rfl
  | blank | newline | comment | joinedLine | unseen | stray => simp [kind, LexemeKind.isToken] at isToken

theorem ends_of_gap {lexeme : Lexeme} {after : List Char} (starts : lexeme.Starts after)
    (isGap : lexeme.kind.isGap = true) (rest : List Char) : Ends (lexeme.text ++ rest) := by
  refine ⟨edge_of_gap starts isGap rest, ?_⟩
  rintro character isHead rfl
  cases gap_form starts isGap with
  | newline | comment | joinedLine | joinedReturn => simp at isHead
  | blank isBlank =>
      obtain rfl := Option.some.inj isHead
      simp [Lexeme.isBlank] at isBlank
  | unseen isUnseen =>
      obtain rfl := Option.some.inj isHead
      simp [Lexeme.isUnseen] at isUnseen

theorem ends_of_skipped {skipped : List Lexeme} (gaps : ∀ lexeme ∈ skipped, lexeme.kind.isGap = true)
    {after : List Char} (chain : Chain skipped after) (ends : Ends after) :
    Ends (texts skipped ++ after) := by
  cases skipped with
  | nil => exact ends
  | cons lexeme rest =>
      rw [texts, List.append_assoc]
      exact ends_of_gap chain.1 (gaps lexeme (.head _)) _

/-- The lexemes of the trees of an expression, from its first token to its last, in front of a text that
ends it. -/
structure Spelled (trees : List Tree) (lexemes : List Lexeme) (tail : List Char) : Prop where
  text : texts lexemes = Tree.text trees
  words : words lexemes = (Tree.allTokens trees).map Token.lexeme
  first : ∃ token ∈ (Tree.allTokens trees).head?, token.kind.isToken = true ∧
    lexemes.head? = some token.lexeme
  last : ∀ lexeme ∈ lexemes.getLast?, lexeme.kind.isToken = true
  unjoined : (∀ lexeme ∈ lexemes, lexeme.kind ≠ .joinedLine) →
    ∀ token ∈ (Tree.allTokens trees).tail, token.joined = false
  proper : ∀ lexeme ∈ lexemes, Proper lexeme
  chain : Chain lexemes tail
  ends : Ends tail

theorem spelled_of_laid {token : Token} {rest : List Token} {trees : List Tree}
    (isTokens : Tree.allTokens trees = token :: rest) (isToken : token.kind.isToken = true)
    (legal : ∀ token ∈ Tree.allTokens trees, token.isLegal = true) (noNull : '\x00' ∉ Tree.text trees)
    (spells : Spells rest lexemes) (chain : Chain (token.lexeme :: lexemes) tail) (ends : Ends tail) :
    Spelled trees (token.lexeme :: lexemes) tail := by
  have text : texts (token.lexeme :: lexemes) = Tree.text trees := by
    rw [texts, spells.texts, Tree.text, isTokens]
    rfl
  have origin : ∀ lexeme ∈ token.lexeme :: lexemes, lexeme.kind.isGap = true ∨
      ∃ other ∈ Tree.allTokens trees, lexeme = other.lexeme := by
    rw [isTokens]
    refine List.forall_mem_cons.mpr ⟨.inr ⟨token, .head _, rfl⟩, fun lexeme member => ?_⟩
    rcases spells.origin lexeme member with isGap | ⟨other, inRest, same⟩
    · exact .inl isGap
    · exact .inr ⟨other, .tail _ inRest, same⟩
  refine ⟨text, ?_, ⟨token, by rw [isTokens]; rfl, isToken, rfl⟩, ?_, ?_, ?_, chain, ends⟩
  · have same := words_token (show token.lexeme.kind.isToken = true from isToken) lexemes
    rw [same, spells.words, isTokens, List.map_cons]
  · exact last_is_token isToken spells.last
  · rw [isTokens]
    exact fun unjoined => spells.unjoined fun lexeme member => unjoined lexeme (.tail _ member)
  · intro lexeme member
    have clean : '\x00' ∉ lexeme.text := by
      obtain ⟨before, behind, whole⟩ := List.append_of_mem member
      rw [whole, texts_append, texts] at text
      intro inText
      rw [← text] at noNull
      exact noNull (by simp [inText])
    rcases origin lexeme member with isGap | ⟨other, inTrees, rfl⟩
    · have kinds : lexeme.kind ≠ .stray ∧ lexeme.kind.isBare = false ∧ lexeme.kind ≠ .string := by
        cases kind : lexeme.kind <;> simp_all [LexemeKind.isGap, LexemeKind.isBare]
      exact ⟨kinds.1, by simp [kinds.2.1], fun string => absurd string kinds.2.2, clean⟩
    · have isLegal := legal other inTrees
      exact ⟨Token.known_of_legal isLegal, Token.visible_of_legal isLegal, Token.names_of_legal isLegal,
        clean⟩

end Compact

/-- The trees of an expression within a line are spelled out by lexemes. -/
theorem Line.spelled_of_infix {source : List Char} {line : Line} (member : line ∈ Line.ofText source)
    {before behind : List Token} {closer : Token} {trees : List Tree}
    (split : line.tokens = before ++ (Tree.allTokens trees ++ closer :: behind))
    (seenBefore : ∃ token ∈ before, token.kind ≠ .stray)
    (closes : closer.isSymbol "," = true ∨ closer.isSymbol ")" = true)
    (nonempty : Tree.allTokens trees ≠ [])
    (legal : ∀ token ∈ Tree.allTokens trees, token.isLegal = true)
    (noNull : '\x00' ∉ Tree.text trees) :
    ∃ lexemes tail, Compact.Spelled trees lexemes tail := by
  have closerText : closer.kind = .symbol ∧ (closer.text = [','] ∨ closer.text = [')']) := by
    rcases closes with comma | round
    · simp_all [Token.isSymbol]
    · simp_all [Token.isSymbol]
  obtain ⟨lexemes, skipped, more, laid, gaps, chain⟩ :=
    lexemes_of_infix member split seenBefore (by simp [closerText.1])
  obtain ⟨token, rest, isTokens⟩ := List.exists_cons_of_ne_nil nonempty
  rw [isTokens] at laid
  have known : ∀ other ∈ token :: rest, other.kind ≠ .stray := fun other inTokens =>
    Token.known_of_legal (legal other (isTokens ▸ inTokens))
  cases laid with
  | stray stray => exact absurd stray (known _ (.head _))
  | @token _ _ front lexemes frontGaps gap joined isToken laid =>
      have spells := spells_of_laid laid fun other inRest => known other (.tail _ inRest)
      obtain ⟨whole, chainSkipped⟩ := chain_append.mp chain
      refine ⟨_, texts skipped ++ (closer.text ++ more), Compact.spelled_of_laid isTokens isToken legal
        noNull spells (chain_append.mp whole).2 (Compact.ends_of_skipped gaps chainSkipped ?_)⟩
      rcases closerText.2 with text | text <;> rw [text] <;>
        exact ⟨Compact.is_edge_cons.mpr (by decide), by simp⟩

end TaskCab.Source
