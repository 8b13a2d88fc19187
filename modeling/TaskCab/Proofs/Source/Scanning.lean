import TaskCab.Proofs.Text.Runs
import TaskCab.Source.Tree

/-!
# Scanning texts that are put together

A text put together from lexemes is scanned back into them when each lexeme is what the scanner takes
off the front of its text and all that follows. A run of tokens, each with a gap of blanks in front, is
gathered into one line then.
-/

namespace TaskCab.Source

namespace Lexeme

def Starts (lexeme : Lexeme) (after : List Char) : Prop :=
  ∃ character rest, lexeme.text = character :: rest ∧
    first character (rest ++ after) = (lexeme.kind, lexeme.text.length)

def texts : List Lexeme → List Char
  | [] => []
  | lexeme :: rest => lexeme.text ++ texts rest

/-- Whether each lexeme starts what is left of the text, where some text follows the last one. -/
def Chain : List Lexeme → List Char → Prop
  | [], _ => True
  | lexeme :: rest, after => lexeme.Starts (texts rest ++ after) ∧ Chain rest after

/-- A text without a byte order mark at its start is scanned from its first character. -/
theorem scan_of_no_mark {text : List Char} (noMark : text.head? ≠ some '\ufeff') :
    scan text = scanFrom 0 text := by
  unfold scan
  split
  next => simp at noMark
  next => rfl

theorem texts_append (left right : List Lexeme) : texts (left ++ right) = texts left ++ texts right := by
  induction left with
  | nil => rfl
  | cons lexeme rest ih => simp [texts, ih]

theorem chain_append {left right : List Lexeme} {after : List Char} :
    Chain (left ++ right) after ↔ Chain left (texts right ++ after) ∧ Chain right after := by
  induction left with
  | nil => simp [Chain]
  | cons lexeme rest ih => simp [Chain, ih, texts_append, and_assoc]

theorem scan_from_skip (skipped after : List Char) :
    scanFrom skipped.length (skipped ++ after) = scanFrom 0 after := by
  induction skipped with
  | nil => rfl
  | cons character rest ih => exact ih

theorem scan_from_starts {lexeme : Lexeme} {after : List Char} (starts : lexeme.Starts after) :
    scanFrom 0 (lexeme.text ++ after) = lexeme :: scanFrom 0 after := by
  obtain ⟨character, rest, text, found⟩ := starts
  rw [text, List.cons_append, scanFrom, found, text]
  simp only [List.length_cons, Nat.add_sub_cancel, scan_from_skip]
  rw [← List.cons_append, ← List.length_cons, List.take_left, ← text]

theorem scan_from_chain {lexemes : List Lexeme} {after : List Char} (chain : Chain lexemes after) :
    scanFrom 0 (texts lexemes ++ after) = lexemes ++ scanFrom 0 after := by
  induction lexemes with
  | nil => rfl
  | cons lexeme rest ih =>
      rw [texts, List.append_assoc, scan_from_starts chain.1, ih chain.2, List.cons_append]

def ofGap (gap : List Char) : List Lexeme :=
  gap.map fun character => ⟨if isBlank character then .blank else .unseen, [character]⟩

def IsGap (gap : List Char) : Prop :=
  ∀ character ∈ gap, isBlank character = true ∨ isUnseen character = true

theorem texts_of_gap (gap : List Char) : texts (ofGap gap) = gap := by
  induction gap with
  | nil => rfl
  | cons character rest ih => exact congrArg (character :: ·) ih

theorem first_of_blank {character : Char} (blank : isBlank character = true) (rest : List Char) :
    first character rest = (.blank, 1) := by
  have notNewline : character ≠ '\n' := by
    rintro rfl
    simp [isBlank] at blank
  unfold first
  rw [if_neg notNewline, if_pos blank]

theorem first_of_unseen {character : Char} (unseen : isUnseen character = true)
    (rest : List Char) : first character rest = (.unseen, 1) := by
  have cases : character = '\x0b' ∨ character = '\ufeff' ∨ character = '\u200b' ∨
      character = '\u2060' := by
    simpa [isUnseen, or_assoc] using unseen
  rcases cases with rfl | rfl | rfl | rfl <;> rfl

theorem not_blank_of_unseen {character : Char} (unseen : isUnseen character = true) :
    isBlank character = false := by
  have cases : character = '\x0b' ∨ character = '\ufeff' ∨ character = '\u200b' ∨
      character = '\u2060' := by
    simpa [isUnseen, or_assoc] using unseen
  rcases cases with rfl | rfl | rfl | rfl <;> rfl

theorem chain_of_gap {gap : List Char} (isGap : IsGap gap) (after : List Char) :
    Chain (ofGap gap) after := by
  induction gap with
  | nil => trivial
  | cons character rest ih =>
      refine ⟨⟨character, [], rfl, ?_⟩, ih fun c member => isGap c (.tail _ member)⟩
      rcases isGap character (.head _) with blank | unseen
      · simp [first_of_blank blank, blank]
      · simp [first_of_unseen unseen, not_blank_of_unseen unseen]

end Lexeme

namespace LexemeKind

def isToken : LexemeKind → Bool
  | word | integer | float | string | symbol => true
  | blank | newline | comment | joinedLine | unseen | stray => false

end LexemeKind

namespace Token

def lexeme (token : Token) : Lexeme := ⟨token.kind, token.text⟩

def lexemes : List Token → List Lexeme
  | [] => []
  | token :: rest => Lexeme.ofGap token.gap ++ token.lexeme :: lexemes rest

/-- Whether a token is found again in front of the text after it. -/
structure Stands (token : Token) (after : List Char) : Prop where
  gap : Lexeme.IsGap token.gap
  unjoined : token.joined = false
  isToken : token.kind.isToken = true
  seen : token.kind = .string → ∀ character ∈ token.gap, Lexeme.isBlank character = true
  starts : token.lexeme.Starts after

def Run : List Token → List Char → Prop
  | [], _ => True
  | token :: rest, after => token.Stands (Tree.tokensText rest ++ after) ∧ Run rest after

theorem tokens_text_append (left right : List Token) :
    Tree.tokensText (left ++ right) = Tree.tokensText left ++ Tree.tokensText right := by
  induction left with
  | nil => rfl
  | cons token rest ih => simp [Tree.tokensText, ih]

theorem run_append {left right : List Token} {after : List Char} :
    Run (left ++ right) after ↔ Run left (Tree.tokensText right ++ after) ∧ Run right after := by
  induction left with
  | nil => simp [Run]
  | cons token rest ih => simp [Run, ih, tokens_text_append, and_assoc]

theorem texts_lexemes (tokens : List Token) :
    Lexeme.texts (lexemes tokens) = Tree.tokensText tokens := by
  induction tokens with
  | nil => rfl
  | cons token rest ih =>
      simp [lexemes, Lexeme.texts_append, Lexeme.texts_of_gap, Lexeme.texts, lexeme, ih,
        Tree.tokensText]

theorem chain_lexemes {tokens : List Token} {after : List Char} (run : Run tokens after) :
    Lexeme.Chain (lexemes tokens) after := by
  induction tokens with
  | nil => trivial
  | cons token rest ih =>
      refine Lexeme.chain_append.mpr ⟨Lexeme.chain_of_gap run.1.gap _, ?_, ih run.2⟩
      rw [texts_lexemes]
      exact run.1.starts

end Token

namespace Line

open Progress

/-- The progress right after a token, or before the first one. -/
structure Progress.Fresh (progress : Progress) : Prop where
  gap : progress.gap = []
  unjoined : progress.joined = false
  unparted : progress.parted = false
  seen : progress.hidden = false

theorem fresh_start : Progress.start.Fresh := ⟨rfl, rfl, rfl, rfl⟩

theorem fresh_add_token (progress : Progress) (token : Token) : (progress.addToken token).Fresh :=
  ⟨rfl, rfl, rfl, rfl⟩

theorem gather_of_gap {gap : List Char} (isGap : Lexeme.IsGap gap) (progress : Progress)
    (more : List Lexeme) :
    gather progress (Lexeme.ofGap gap ++ more) =
      gather { progress with
        gap := progress.gap ++ gap
        parted := if gap.any fun c => !Lexeme.isBlank c then progress.joined else progress.parted
        hidden := progress.hidden || gap.any fun c => !Lexeme.isBlank c } more := by
  induction gap generalizing progress with
  | nil => simp [Lexeme.ofGap]
  | cons character rest ih =>
      have later := ih fun c member => isGap c (.tail _ member)
      rcases isGap character (.head _) with blank | unseen
      · have step : gather progress (Lexeme.ofGap (character :: rest) ++ more) =
            gather (progress.skip ⟨.blank, [character]⟩) (Lexeme.ofGap rest ++ more) := by
          simp [Lexeme.ofGap, blank, gather, addLexeme]
        rw [step, later]
        simp [skip, blank]
      · have notBlank := Lexeme.not_blank_of_unseen unseen
        have step : gather progress (Lexeme.ofGap (character :: rest) ++ more) =
            gather { progress.skip ⟨.unseen, [character]⟩ with hidden := true, parted := progress.joined }
              (Lexeme.ofGap rest ++ more) := by
          simp [Lexeme.ofGap, notBlank, gather, addLexeme]
        rw [step, later]
        simp [skip, notBlank]

theorem gather_token {token : Token} {after : List Char} (stands : token.Stands after)
    {progress : Progress} (fresh : progress.Fresh) (more : List Lexeme) :
    gather progress (Lexeme.ofGap token.gap ++ token.lexeme :: more) =
      gather (progress.addToken token) more := by
  obtain ⟨depth, _, _, _, _, tokens⟩ := progress
  obtain ⟨rfl, rfl, rfl, rfl⟩ := fresh
  obtain ⟨gap, joined, kind, text⟩ := token
  obtain ⟨isGap, unjoined, isToken, seen, -⟩ := stands
  obtain rfl : joined = false := unjoined
  rw [gather_of_gap isGap]
  simp only [Token.lexeme, gather, List.nil_append, Bool.false_or]
  cases kind with
  | string =>
      have blank : (gap.any fun c => !Lexeme.isBlank c) = false := by
        simpa using seen rfl
      simp [addLexeme, blank, addToken]
  | word | integer | float | symbol => simp [addLexeme, addToken]
  | blank | newline | comment | joinedLine | unseen | stray => simp [LexemeKind.isToken] at isToken

theorem gather_run {tokens : List Token} {after : List Char} (run : Token.Run tokens after)
    {progress : Progress} (fresh : progress.Fresh) (more : List Lexeme) :
    gather progress (Token.lexemes tokens ++ more) =
      gather (tokens.foldl addToken progress) more := by
  induction tokens generalizing progress with
  | nil => rfl
  | cons token rest ih =>
      have step := gather_token run.1 fresh (Token.lexemes rest ++ more)
      simp only [Token.lexemes, List.append_assoc, List.cons_append, List.foldl_cons] at step ⊢
      rw [step, ih run.2 (fresh_add_token progress token)]

theorem tokens_foldl (tokens : List Token) (progress : Progress) :
    (tokens.foldl addToken progress).tokens = tokens.reverse ++ progress.tokens := by
  induction tokens generalizing progress with
  | nil => rfl
  | cons token rest ih => simp [ih, addToken]

theorem fresh_foldl (tokens : List Token) {progress : Progress} (fresh : progress.Fresh) :
    (tokens.foldl addToken progress).Fresh := by
  induction tokens generalizing progress with
  | nil => exact fresh
  | cons token rest ih => exact ih (fresh_add_token progress token)

/-- A run of tokens is one line. -/
theorem of_text_run {token : Token} {rest : List Token} (run : Token.Run (token :: rest) [])
    (noMark : (Tree.tokensText (token :: rest)).head? ≠ some '\ufeff') :
    ofText (Tree.tokensText (token :: rest)) = [⟨indentOf token.gap, token :: rest⟩] := by
  have scanned : Lexeme.scan (Tree.tokensText (token :: rest)) = Token.lexemes (token :: rest) := by
    have chained := Lexeme.scan_from_chain (Token.chain_lexemes run)
    rw [Token.texts_lexemes, List.append_nil, Lexeme.scanFrom, List.append_nil] at chained
    rw [← chained, Lexeme.scan_of_no_mark noMark]
  have gathered := gather_run run fresh_start []
  simp only [List.append_nil] at gathered
  have fresh := fresh_foldl (token :: rest) fresh_start
  rw [ofText, scanned, gathered, gather, endLine, fresh.seen, tokens_foldl]
  simp [Progress.start, ofReversed]

end Line

end TaskCab.Source
