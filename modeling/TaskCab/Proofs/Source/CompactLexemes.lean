import TaskCab.Proofs.Source.Compaction

/-!
# Scanning compact text

The lexemes that compaction writes are scanned off its text again, since each keeps what it is known by
ahead of it. They make one line, whose tokens are those of the expression, apart from a comma that has
been dropped, unless a backslash stays behind or a string comes after a character that is kept.
-/

namespace TaskCab.Source.Compact

open TaskCab.Text Lexeme

/-- Whether a text is empty or starts with a character that goes on no token and opens no literal. -/
def IsEdge (text : List Char) : Prop :=
  ∀ character ∈ text.head?, goesOn character = false ∧ Quoted.isMark character = false

def IsCut (text : List Char) : Prop :=
  IsEdge text ∧ text.head? ≠ some '\n' ∧ text.head? ≠ some '\r'

theorem is_edge_cons {character : Char} {rest : List Char} :
    IsEdge (character :: rest) ↔ goesOn character = false ∧ Quoted.isMark character = false := by
  simp [IsEdge]

theorem is_cut_cons {character : Char} {rest : List Char} :
    IsCut (character :: rest) ↔ (goesOn character = false ∧ Quoted.isMark character = false) ∧
      character ≠ '\n' ∧ character ≠ '\r' := by
  simp [IsCut, IsEdge]

theorem alike_of_edges {left right : List Char} (edgeLeft : IsEdge left) (edgeRight : IsEdge right) :
    AlikeAhead left right := by
  have none {text : List Char} (edge : IsEdge text) {mark : Char}
      (quotes : Quoted.isMark mark = true) : text.head? ≠ some mark := by
    intro head
    rw [(edge mark head).2] at quotes
    simp at quotes
  refine ⟨[], left, right, rfl, rfl, fun c head => (edgeLeft c head).1,
    fun c head => (edgeRight c head).1, ?_⟩
  intro mark quotes
  simp [none edgeLeft quotes, none edgeRight quotes]

theorem edge_of_unseen {character : Char} (unseen : isUnseen character = true) :
    goesOn character = false ∧ Quoted.isMark character = false := by
  have cases : character = '\x0b' ∨ character = '\ufeff' ∨ character = '\u200b' ∨
      character = '\u2060' := by simpa [isUnseen, or_assoc] using unseen
  rcases cases with rfl | rfl | rfl | rfl <;> decide

theorem edge_of_gap {lexeme : Lexeme} {after : List Char} (starts : lexeme.Starts after)
    (isGap : lexeme.kind.isGap = true) (rest : List Char) : IsEdge (lexeme.text ++ rest) := by
  cases gap_form starts isGap with
  | newline | comment | joinedLine | joinedReturn => exact is_edge_cons.mpr (by decide)
  | @blank _ character isBlank =>
      have cases : character = ' ' ∨ character = '\t' ∨ character = '\r' ∨ character = '\x0c' := by
        simpa [Lexeme.isBlank, or_assoc] using isBlank
      rcases cases with rfl | rfl | rfl | rfl <;> exact is_edge_cons.mpr (by decide)
  | unseen isUnseen => exact is_edge_cons.mpr (edge_of_unseen isUnseen)

/-- A symbol with a role of its own starts with an edge that is no line end. -/
theorem cut_of_symbol {lexeme : Lexeme} (symbol : lexeme.kind = .symbol)
    (special : role lexeme ≠ .ordinary) (rest : List Char) : IsCut (lexeme.text ++ rest) := by
  rcases symbol_cases symbol with ⟨-, texts⟩ | ⟨-, text⟩ | ⟨-, text⟩ | ⟨-, texts⟩ | ⟨-, texts⟩ |
    ordinary
  · rcases texts with text | text <;> rw [text] <;> exact is_cut_cons.mpr (by decide)
  · rw [text]
    exact is_cut_cons.mpr (by decide)
  · rw [text]
    exact is_cut_cons.mpr (by decide)
  · rcases texts with text | text <;> rw [text] <;> exact is_cut_cons.mpr (by decide)
  · rcases texts with text | text | text <;> rw [text] <;> exact is_cut_cons.mpr (by decide)
  · exact absurd ordinary special

theorem kind_of_role {lexeme : Lexeme} :
    (role lexeme = .space → lexeme.kind.isGap = true) ∧
      (role lexeme = .joined → lexeme.kind = .joinedLine) ∧
      (role lexeme ≠ .space → role lexeme ≠ .joined → role lexeme ≠ .ordinary →
        lexeme.kind = .symbol) := by
  obtain ⟨kind, text⟩ := lexeme
  cases kind with
  | symbol =>
      refine ⟨?_, ?_, fun _ _ _ => rfl⟩ <;>
        · simp only [role]
          split_ifs <;> simp
  | unseen =>
      simp only [role]
      split <;> simp [LexemeKind.isGap]
  | blank | newline | comment | joinedLine | word | integer | float | string | stray =>
      simp [role, LexemeKind.isGap]

theorem comma_of_role {lexeme : Lexeme} (isRole : role lexeme = .comma) : lexeme = commaLexeme := by
  have symbol : lexeme.kind = .symbol :=
    kind_of_role.2.2 (by simp [isRole]) (by simp [isRole]) (by simp [isRole])
  obtain ⟨kind, text⟩ := lexeme
  obtain rfl : kind = .symbol := symbol
  rcases @symbol_cases ⟨.symbol, text⟩ rfl with ⟨other, -⟩ | ⟨other, -⟩ | ⟨-, same⟩ | ⟨other, -⟩ |
    ⟨other, -⟩ | other
  case inr.inr.inl =>
    obtain rfl : text = [','] := same
    rfl
  all_goals simp [other] at isRole

/-- What compaction writes at a lexeme, and where it stands behind it. -/
inductive Emits (state : State) (lexeme : Lexeme) : List Lexeme → State → Prop
  | space (isRole : role lexeme = .space) (isGap : lexeme.kind.isGap = true) :
      Emits state lexeme [] ⟨state.behind, true⟩
  | joined (isRole : role lexeme = .joined) (isJoined : lexeme.kind = .joinedLine) :
      Emits state lexeme (gap state ++ [backslashLexeme]) ⟨.other, true⟩
  | comma (isRole : role lexeme = .comma) (isComma : lexeme = commaLexeme) :
      Emits state lexeme (pending state) ⟨.comma, false⟩
  | closing (isRole : role lexeme = .closing) (isSymbol : lexeme.kind = .symbol) :
      Emits state lexeme [lexeme] ⟨.other, false⟩
  | behind (isRole : role lexeme = .round ∨ role lexeme = .colon) (isSymbol : lexeme.kind = .symbol) :
      Emits state lexeme (pending state ++ [lexeme]) ⟨.other, false⟩
  | opening (isRole : role lexeme = .opening) (isSymbol : lexeme.kind = .symbol) :
      Emits state lexeme (gap state ++ [lexeme]) ⟨.opening, false⟩
  | ordinary (isRole : role lexeme = .ordinary) :
      Emits state lexeme (gap state ++ [lexeme]) ⟨.other, false⟩

theorem emits (state : State) (lexeme : Lexeme) :
    Emits state lexeme (emitted state lexeme) (advance state lexeme) := by
  have symbol := (@kind_of_role lexeme).2.2
  cases isRole : role lexeme with
  | space =>
      simp only [emitted, advance, isRole]
      exact .space isRole (kind_of_role.1 isRole)
  | joined =>
      simp only [emitted, advance, isRole]
      exact .joined isRole (kind_of_role.2.1 isRole)
  | comma =>
      simp only [emitted, advance, isRole]
      exact .comma isRole (comma_of_role isRole)
  | closing =>
      simp only [emitted, advance, isRole]
      exact .closing isRole (symbol (by simp [isRole]) (by simp [isRole]) (by simp [isRole]))
  | round | colon =>
      simp only [emitted, advance, isRole]
      exact .behind (by simp [isRole]) (symbol (by simp [isRole]) (by simp [isRole]) (by simp [isRole]))
  | opening =>
      simp only [emitted, advance, isRole]
      exact .opening isRole (symbol (by simp [isRole]) (by simp [isRole]) (by simp [isRole]))
  | ordinary =>
      simp only [emitted, advance, isRole]
      exact .ordinary isRole

/-- What comes after some lexemes, by where their compaction arrives, beside what came after them. -/
structure Ending (tail : List Char) (ending : State → List Char) : Prop where
  cut : ∀ state, state.behind ≠ .opening → (state.spaced = true ∨ state.behind = .comma) →
    IsCut (ending state)
  alike : AlikeAhead tail (ending ⟨.other, false⟩)

theorem cut_of_gap {state : State} (notOpening : state.behind ≠ .opening)
    (due : state.spaced = true ∨ state.behind = .comma) (rest : List Char) :
    IsCut (texts (gap state) ++ rest) := by
  obtain ⟨behind, spaced⟩ := state
  cases behind with
  | opening => exact absurd rfl notOpening
  | comma => exact is_cut_cons.mpr (by decide)
  | other =>
      obtain rfl : spaced = true := by simpa using due
      exact is_cut_cons.mpr (by decide)

/-- Where a space or a comma is due, the text that compaction goes on with starts with a cut. -/
theorem cut_tidy {lexemes : List Lexeme} {tail : List Char} {ending : State → List Char}
    (ends : Ending tail ending) {state : State} (notOpening : state.behind ≠ .opening)
    (due : state.spaced = true ∨ state.behind = .comma) :
    IsCut (texts (tidy state lexemes) ++ ending (arrive state lexemes)) := by
  induction lexemes generalizing state with
  | nil => exact ends.cut state notOpening due
  | cons lexeme rest ih =>
      change IsCut (texts (emitted state lexeme ++ tidy (advance state lexeme) rest) ++
        ending (arrive (advance state lexeme) rest))
      have emits := emits state lexeme
      generalize emitted state lexeme = front, advance state lexeme = next at emits ⊢
      cases emits with
      | space => exact ih notOpening (.inl rfl)
      | joined | opening | ordinary =>
          rw [List.append_assoc, texts_append, List.append_assoc]
          exact cut_of_gap notOpening due _
      | closing isRole isSymbol =>
          rw [List.singleton_append, texts, List.append_assoc]
          exact cut_of_symbol isSymbol (by simp [isRole]) _
      | behind isRole isSymbol =>
          obtain ⟨behind, spaced⟩ := state
          cases behind with
          | opening => exact absurd rfl notOpening
          | comma => exact is_cut_cons.mpr (by decide)
          | other =>
              change IsCut (texts (lexeme :: _) ++ _)
              rw [texts, List.append_assoc]
              exact cut_of_symbol isSymbol (by rcases isRole with isRole | isRole <;> simp [isRole]) _
      | comma =>
          obtain ⟨behind, spaced⟩ := state
          cases behind with
          | opening => exact absurd rfl notOpening
          | comma => exact is_cut_cons.mpr (by decide)
          | other => exact ih (by simp) (.inr rfl)

/-- Right behind a token, compaction goes on with a text that is alike ahead. -/
theorem alike_tidy {lexemes : List Lexeme} {tail : List Char} {ending : State → List Char}
    (ends : Ending tail ending) (sound : AllSound lexemes tail) :
    AlikeAhead (texts lexemes ++ tail)
      (texts (tidy ⟨.other, false⟩ lexemes) ++ ending (arrive ⟨.other, false⟩ lexemes)) := by
  induction lexemes with
  | nil => exact ends.alike
  | cons lexeme rest ih =>
      change AlikeAhead (texts (lexeme :: rest) ++ tail)
        (texts (emitted ⟨.other, false⟩ lexeme ++ tidy (advance ⟨.other, false⟩ lexeme) rest) ++
          ending (arrive (advance ⟨.other, false⟩ lexeme) rest))
      rw [texts, List.append_assoc]
      have symbolCase (special : role lexeme ≠ .ordinary) (isSymbol : lexeme.kind = .symbol)
          (more : List Lexeme) (right : List Char) :
          AlikeAhead (lexeme.text ++ (texts rest ++ tail)) (texts (lexeme :: more) ++ right) := by
        rw [texts, List.append_assoc]
        exact alike_of_edges (cut_of_symbol isSymbol special _).1 (cut_of_symbol isSymbol special _).1
      have emits := emits ⟨.other, false⟩ lexeme
      generalize emitted ⟨.other, false⟩ lexeme = front, advance ⟨.other, false⟩ lexeme = next at emits ⊢
      cases emits with
      | space _ isGap =>
          exact alike_of_edges (edge_of_gap sound.1.starts isGap _) (cut_tidy ends (by simp) (.inl rfl)).1
      | joined _ isJoined =>
          exact alike_of_edges (edge_of_gap sound.1.starts (by rw [isJoined]; rfl) _)
            (is_edge_cons.mpr (by decide))
      | comma _ isComma =>
          subst isComma
          exact alike_of_edges (is_edge_cons.mpr (by decide)) (cut_tidy ends (by simp) (.inr rfl)).1
      | closing isRole isSymbol | opening isRole isSymbol =>
          exact symbolCase (by simp [isRole]) isSymbol _ _
      | behind isRole isSymbol =>
          exact symbolCase (by rcases isRole with isRole | isRole <;> simp [isRole]) isSymbol _ _
      | ordinary =>
          change AlikeAhead _ (texts (lexeme :: _) ++ _)
          rw [texts, List.append_assoc]
          exact alike_append _ (ih sound.2)

theorem starts_comma (after : List Char) : Starts commaLexeme after :=
  starts_mark (by simp) after

theorem starts_space (after : List Char) : Starts spaceLexeme after := ⟨' ', [], rfl, rfl⟩

theorem starts_backslash {after : List Char} (cut : IsCut after) : Starts backslashLexeme after := by
  refine ⟨'\\', [], rfl, ?_⟩
  obtain ⟨-, notNewline, notReturn⟩ := cut
  cases after with
  | nil => rfl
  | cons character rest =>
      have different : character ≠ '\n' ∧ character ≠ '\r' := by
        constructor
        · rintro rfl
          exact notNewline rfl
        · rintro rfl
          exact notReturn rfl
      unfold first
      simp [Lexeme.isBlank, different.1, different.2, backslashLexeme]

theorem chain_gap (state : State) (after : List Char) : Chain (gap state) after := by
  obtain ⟨behind, spaced⟩ := state
  cases behind <;> cases spaced <;> simp [gap, Chain, starts_comma, starts_space]

theorem chain_pending (state : State) (after : List Char) : Chain (pending state) after := by
  obtain ⟨behind, spaced⟩ := state
  cases behind <;> simp [pending, Chain, starts_comma]

theorem starts_token_again {lexeme : Lexeme} {left right : List Char} (sound : Sound lexeme left)
    (isToken : lexeme.kind.isToken = true) (alike : AlikeAhead left right) : lexeme.Starts right := by
  cases kind : lexeme.kind with
  | word | integer | float | symbol => exact starts_bare (by rw [kind]; rfl) alike sound.starts
  | string =>
      obtain ⟨style, flags, body, -, -, again⟩ := sound.literal kind
      obtain ⟨_, text⟩ := lexeme
      obtain rfl := kind
      exact again right alike
  | blank | newline | comment | joinedLine | unseen | stray => simp [kind, LexemeKind.isToken] at isToken

/-- A lexeme that is written is scanned again, in front of what compaction goes on with. -/
theorem starts_written {lexeme : Lexeme} {left right : List Char} (sound : Sound lexeme left)
    (unjoined : role lexeme ≠ .joined) (unspaced : role lexeme ≠ .space)
    (alike : role lexeme ≠ .opening → AlikeAhead left right) : lexeme.Starts right := by
  by_cases opening : role lexeme = .opening
  · have symbol := (@kind_of_role lexeme).2.2 unspaced unjoined (by simp [opening])
    obtain ⟨kind, text⟩ := lexeme
    obtain rfl : kind = .symbol := symbol
    rcases @symbol_cases ⟨.symbol, text⟩ rfl with ⟨isRole, -⟩ | ⟨isRole, -⟩ | ⟨isRole, -⟩ |
      ⟨isRole, -⟩ | ⟨-, texts⟩ | isRole
    case inr.inr.inr.inr.inl =>
      rcases texts with rfl | rfl | rfl <;> exact ⟨_, [], rfl, rfl⟩
    all_goals simp [isRole] at opening
  · have ahead := alike opening
    cases kind : lexeme.kind with
    | word | integer | float | symbol | string => exact starts_token_again sound (by rw [kind]; rfl) ahead
    | unseen =>
        obtain ⟨_, text⟩ := lexeme
        obtain rfl := kind
        cases gap_form sound.starts rfl with
        | unseen isUnseen => exact ⟨_, [], rfl, first_of_unseen isUnseen _⟩
    | blank | newline | comment => simp [role, kind] at unspaced
    | joinedLine => simp [role, kind] at unjoined
    | stray => exact absurd kind sound.known

/-- What compaction writes is a chain of lexemes. -/
theorem chain_tidy {lexemes : List Lexeme} {tail : List Char} {ending : State → List Char}
    (ends : Ending tail ending) (sound : AllSound lexemes tail) (state : State) :
    Chain (tidy state lexemes) (ending (arrive state lexemes)) := by
  induction lexemes generalizing state with
  | nil => trivial
  | cons lexeme rest ih =>
      change Chain (emitted state lexeme ++ tidy (advance state lexeme) rest)
        (ending (arrive (advance state lexeme) rest))
      have later := ih sound.2 (advance state lexeme)
      refine chain_append.mpr ⟨?_, later⟩
      have one (front : List Lexeme) (frontChain : ∀ after, Chain front after) (next : State)
          (unjoined : role lexeme ≠ .joined) (unspaced : role lexeme ≠ .space)
          (isNext : role lexeme ≠ .opening → next = ⟨.other, false⟩) :
          Chain (front ++ [lexeme]) (texts (tidy next rest) ++ ending (arrive next rest)) := by
        refine chain_append.mpr ⟨frontChain _, ?_, trivial⟩
        refine starts_written sound.1 unjoined unspaced fun notOpening => ?_
        rw [isNext notOpening]
        exact alike_tidy ends sound.2
      have emits := emits state lexeme
      generalize emitted state lexeme = front, advance state lexeme = next at emits ⊢
      cases emits with
      | space => trivial
      | joined =>
          have cut := @cut_tidy rest tail ending ends ⟨.other, true⟩ (by simp) (.inl rfl)
          exact chain_append.mpr ⟨chain_gap _ _, starts_backslash cut, trivial⟩
      | comma => exact chain_pending _ _
      | closing isRole =>
          exact one [] (fun _ => trivial) _ (by simp [isRole]) (by simp [isRole]) fun _ => rfl
      | behind isRole =>
          refine one _ (chain_pending state) _ ?_ ?_ fun _ => rfl <;>
            rcases isRole with isRole | isRole <;> simp [isRole]
      | opening isRole =>
          exact one _ (chain_gap state) _ (by simp [isRole]) (by simp [isRole])
            fun notOpening => absurd isRole notOpening
      | ordinary isRole =>
          exact one _ (chain_gap state) _ (by simp [isRole]) (by simp [isRole]) fun _ => rfl

/-- The tokens that a line makes of lexemes without line ends, where a flag says that an unseen
character waits for the next token. -/
def heard : Bool → List Lexeme → List Lexeme
  | _, [] => []
  | hidden, lexeme :: rest =>
      match lexeme.kind with
      | .blank => heard hidden rest
      | .unseen => heard true rest
      | .string => (if hidden then ⟨.stray, []⟩ else lexeme) :: heard false rest
      | _ => lexeme :: heard false rest

def hides : Bool → List Lexeme → Bool
  | hidden, [] => hidden
  | hidden, lexeme :: rest =>
      match lexeme.kind with
      | .blank => hides hidden rest
      | .unseen => hides true rest
      | _ => hides false rest

theorem heard_append (hidden : Bool) (left right : List Lexeme) :
    heard hidden (left ++ right) = heard hidden left ++ heard (hides hidden left) right := by
  induction left generalizing hidden with
  | nil => rfl
  | cons lexeme rest ih =>
      rw [List.cons_append]
      cases kind : lexeme.kind <;> simp [heard, hides, kind, ih]

def IsWritten (lexeme : Lexeme) : Prop :=
  lexeme.kind ≠ .newline ∧ lexeme.kind ≠ .comment ∧ lexeme.kind ≠ .joinedLine

theorem written_of_gap (state : State) : ∀ lexeme ∈ gap state, IsWritten lexeme := by
  obtain ⟨behind, spaced⟩ := state
  cases behind <;> cases spaced <;> simp [gap, IsWritten, commaLexeme, spaceLexeme]

theorem written_of_pending (state : State) : ∀ lexeme ∈ pending state, IsWritten lexeme := by
  obtain ⟨behind, spaced⟩ := state
  cases behind <;> simp [pending, IsWritten, commaLexeme]

theorem written_of_tidy {lexemes : List Lexeme} (state : State) :
    ∀ lexeme ∈ tidy state lexemes, IsWritten lexeme := by
  have self {lexeme : Lexeme} (unspaced : role lexeme ≠ .space) (unjoined : role lexeme ≠ .joined) :
      IsWritten lexeme := by
    refine ⟨?_, ?_, ?_⟩ <;> intro kind
    · simp [role, kind] at unspaced
    · simp [role, kind] at unspaced
    · simp [role, kind] at unjoined
  induction lexemes generalizing state with
  | nil => simp [tidy]
  | cons lexeme rest ih =>
      intro other member
      rcases List.mem_append.mp member with now | later
      · have emits := emits state lexeme
        generalize emitted state lexeme = front, advance state lexeme = next at emits now
        cases emits with
        | space => simp at now
        | joined =>
            rcases List.mem_append.mp now with inGap | isLast
            · exact written_of_gap state other inGap
            · simp [List.mem_singleton.mp isLast, IsWritten, backslashLexeme]
        | comma => exact written_of_pending state other now
        | closing isRole =>
            exact List.mem_singleton.mp now ▸ self (by simp [isRole]) (by simp [isRole])
        | behind isRole =>
            rcases List.mem_append.mp now with inGap | isLast
            · exact written_of_pending state other inGap
            · refine List.mem_singleton.mp isLast ▸ self ?_ ?_ <;>
                rcases isRole with isRole | isRole <;> simp [isRole]
        | opening isRole | ordinary isRole =>
            rcases List.mem_append.mp now with inGap | isLast
            · exact written_of_gap state other inGap
            · exact List.mem_singleton.mp isLast ▸ self (by simp [isRole]) (by simp [isRole])
      · exact ih _ other later

end TaskCab.Source.Compact

namespace TaskCab.Source.Line

open Progress TaskCab.Source.Compact

/-- Whether a progress goes on to another one by taking up lexemes as tokens. -/
structure TakesUp (progress next : Progress) (lexemes : List Lexeme) (tokens : List Token) : Prop where
  gathered : ∀ more, gather progress (lexemes ++ more) = gather next more
  joined : next.joined = false
  hidden : next.hidden = hides progress.hidden lexemes
  added : next.tokens = tokens.reverse ++ progress.tokens
  heard : tokens.map Token.lexeme = heard progress.hidden lexemes
  unjoined : ∀ token ∈ tokens, token.joined = false

theorem takes_up_gap {progress between next : Progress} {lexeme : Lexeme} {rest : List Lexeme}
    {tokens : List Token} (step : ∀ more, gather progress (lexeme :: more) = gather between more)
    (sameTokens : between.tokens = progress.tokens)
    (isHidden : hides progress.hidden (lexeme :: rest) = hides between.hidden rest)
    (isHeard : Compact.heard progress.hidden (lexeme :: rest) = Compact.heard between.hidden rest)
    (later : TakesUp between next rest tokens) : TakesUp progress next (lexeme :: rest) tokens := by
  refine ⟨?_, later.joined, ?_, ?_, ?_, later.unjoined⟩
  · intro more
    rw [List.cons_append, step, later.gathered]
  · rw [later.hidden, isHidden]
  · rw [later.added, sameTokens]
  · rw [later.heard, isHeard]

theorem takes_up_token {progress next : Progress} {lexeme : Lexeme} {rest : List Lexeme}
    {token : Token} {tokens : List Token}
    (step : ∀ more, gather progress (lexeme :: more) = gather (progress.addToken token) more)
    (unjoined : token.joined = false)
    (isHidden : hides progress.hidden (lexeme :: rest) = hides false rest)
    (isHeard : Compact.heard progress.hidden (lexeme :: rest) =
      token.lexeme :: Compact.heard false rest)
    (later : TakesUp (progress.addToken token) next rest tokens) :
    TakesUp progress next (lexeme :: rest) (token :: tokens) := by
  refine ⟨?_, later.joined, ?_, ?_, ?_, List.forall_mem_cons.mpr ⟨unjoined, later.unjoined⟩⟩
  · intro more
    rw [List.cons_append, step, later.gathered]
  · rw [later.hidden, isHidden]
    rfl
  · rw [later.added]
    simp [addToken]
  · rw [List.map_cons, later.heard, isHeard]
    rfl

/-- Written lexemes go on one line, as the tokens that are heard. -/
theorem takes_up_written {lexemes : List Lexeme} (areWritten : ∀ lexeme ∈ lexemes, IsWritten lexeme)
    {progress : Progress} (unjoined : progress.joined = false) (unparted : progress.parted = false) :
    ∃ next tokens, TakesUp progress next lexemes tokens := by
  induction lexemes generalizing progress with
  | nil => exact ⟨progress, [], fun _ => rfl, unjoined, rfl, rfl, rfl, by simp⟩
  | cons lexeme rest ih =>
      have later {between : Progress} (unjoined : between.joined = false)
          (unparted : between.parted = false) :=
        ih (fun other member => areWritten other (.tail _ member)) unjoined unparted
      obtain ⟨notNewline, notComment, notJoined⟩ := areWritten lexeme (.head _)
      have step (more : List Lexeme) : gather progress (lexeme :: more) =
          gather (progress.addLexeme lexeme) more := by
        rw [gather]
        simp [notNewline]
      obtain ⟨kind, text⟩ := lexeme
      cases kind with
      | blank =>
          obtain ⟨next, tokens, takes⟩ := @later (progress.addLexeme ⟨.blank, text⟩) unjoined unparted
          exact ⟨next, tokens, takes_up_gap step rfl rfl rfl takes⟩
      | unseen =>
          obtain ⟨next, tokens, takes⟩ := @later (progress.addLexeme ⟨.unseen, text⟩) unjoined unjoined
          exact ⟨next, tokens, takes_up_gap step rfl rfl rfl takes⟩
      | string =>
          have added : progress.addLexeme ⟨.string, text⟩ =
              progress.addToken (if progress.hidden then Token.stray progress.gap
                else ⟨progress.gap, progress.parted, .string, text⟩) := by
            simp only [addLexeme]
            split <;> rfl
          rw [added] at step
          obtain ⟨next, tokens, takes⟩ := @later (progress.addToken _) rfl rfl
          refine ⟨next, _, takes_up_token step ?_ rfl ?_ takes⟩
          · split
            · rfl
            · exact unparted
          · simp only [Compact.heard]
            split <;> rfl
      | newline => exact absurd rfl notNewline
      | comment => exact absurd rfl notComment
      | joinedLine => exact absurd rfl notJoined
      | word | integer | float | symbol | stray =>
          obtain ⟨next, tokens, takes⟩ := @later (progress.addToken _) rfl rfl
          exact ⟨next, _, takes_up_token step unjoined rfl rfl takes⟩

end TaskCab.Source.Line
