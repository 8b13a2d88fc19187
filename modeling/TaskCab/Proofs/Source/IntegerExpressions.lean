import TaskCab.Proofs.Source.DigitStrings
import TaskCab.Proofs.Source.WrittenLines

/-!
# Expressions of integers as they are written

An expression is a number, a truth value or a string of digits, a signed expression, one in round brackets,
or a call of `int`. Blanks and joined lines may stand between its tokens, and inside brackets line ends and
comments too. Such a text is one line, whose tokens group into the trees of the expression.
-/

namespace TaskCab.Source

open TaskCab.Text

/-! ## Spaces -/

/-- What may stand between two tokens. A joined line may end in a return and a line feed. -/
inductive Space where
  | blank (character : Char)
  | joined (returned : Bool)
  | feed
  | comment (body : List Char)

namespace Space

def text : Space → List Char
  | blank character => [character]
  | joined returned => if returned then ['\\', '\r', '\n'] else ['\\', '\n']
  | feed => ['\n']
  | comment body => '#' :: (body ++ ['\n'])

def joins : Space → Bool
  | joined _ => true
  | _ => false

def comments : Space → Bool
  | comment _ => true
  | _ => false

def Fits (inside : Bool) : Space → Prop
  | blank character =>
      character = ' ' ∨ character = '\t' ∨ character = '\x0c' ∨ (inside = true ∧ character = '\r')
  | joined _ => True
  | feed => inside = true
  | comment body => inside = true ∧ '\n' ∉ body ∧ '\x00' ∉ body

def lexemes : Space → List Lexeme
  | blank character => [⟨.blank, [character]⟩]
  | joined returned => [⟨.joinedLine, if returned then ['\\', '\r', '\n'] else ['\\', '\n']⟩]
  | feed => [⟨.newline, ['\n']⟩]
  | comment body => [⟨.comment, '#' :: body⟩, ⟨.newline, ['\n']⟩]

theorem texts_lexemes (space : Space) : Lexeme.texts space.lexemes = space.text := by
  cases space <;> simp [lexemes, text, Lexeme.texts]

theorem chain_lexemes {space : Space} {inside : Bool} (fits : space.Fits inside) (after : List Char) :
    Lexeme.Chain space.lexemes after := by
  cases space with
  | blank character =>
      have isBlank : Lexeme.isBlank character = true := by
        rcases fits with rfl | rfl | rfl | ⟨-, rfl⟩ <;> rfl
      exact ⟨⟨character, [], rfl, Lexeme.first_of_blank isBlank _⟩, trivial⟩
  | joined returned => cases returned <;> exact ⟨⟨'\\', _, rfl, rfl⟩, trivial⟩
  | feed => exact ⟨⟨'\n', [], rfl, rfl⟩, trivial⟩
  | comment body =>
      obtain ⟨-, noFeed, noNull⟩ := fits
      refine ⟨⟨'#', body, rfl, ?_⟩, ⟨'\n', [], rfl, rfl⟩, trivial⟩
      have run : (body ++ ['\n'] ++ after).takeWhile (fun c => c ≠ '\n' && c ≠ '\x00') = body := by
        rw [List.append_assoc]
        refine take_while_run (fun c member => ?_) (stops_cons.mpr rfl)
        have notFeed : c ≠ '\n' := fun same => noFeed (same ▸ member)
        have notNull : c ≠ '\x00' := fun same => noNull (same ▸ member)
        simp [notFeed, notNull]
      have texts : body ++ (Lexeme.texts [⟨.newline, ['\n']⟩] ++ after) = body ++ ['\n'] ++ after := by
        simp [Lexeme.texts]
      have found (rest : List Char) : Lexeme.first '#' rest =
          (.comment, 1 + (rest.takeWhile fun c => c ≠ '\n' && c ≠ '\x00').length) := rfl
      rw [texts, found, run, List.length_cons, Nat.add_comm]

end Space

def gapText (gap : List Space) : List Char := gap.flatMap Space.text

def gapLexemes (gap : List Space) : List Lexeme := gap.flatMap Space.lexemes

/-- Whether a comment comes behind a joined line. -/
def partsJoined : List Space → Bool
  | [] => false
  | space :: rest => (space.joins && rest.any Space.comments) || partsJoined rest

/-- Whether a joined line stands in front of a token; a string takes it for a blank, unless a comment comes
behind it. -/
def joinsBefore (kind : LexemeKind) (gap : List Space) : Bool :=
  if kind = .string then partsJoined gap else gap.any Space.joins

theorem joins_before_nil (kind : LexemeKind) : joinsBefore kind [] = false := by simp [joinsBefore, partsJoined]

def closers : List Char := " \t\x0c\r\\\n#()".toList

def Closes (after : List Char) : Prop := Stops (fun c => !closers.contains c) after

theorem stops_of_closes {after : List Char} (closes : Closes after) {holds : Char → Bool}
    (none : ∀ closer ∈ closers, holds closer = false) : Stops holds after := by
  intro character isHead
  have isCloser := closes character isHead
  exact none character (by simpa using isCloser)

theorem texts_gap (gap : List Space) : Lexeme.texts (gapLexemes gap) = gapText gap := by
  induction gap with
  | nil => rfl
  | cons space rest ih =>
      rw [gapLexemes, List.flatMap_cons, Lexeme.texts_append, ← gapLexemes, ih, Space.texts_lexemes]
      rfl

section
variable {inside : Bool} {gap : List Space} (fits : ∀ space ∈ gap, space.Fits inside)
include fits

theorem chain_gap (after : List Char) : Lexeme.Chain (gapLexemes gap) after := by
  induction gap with
  | nil => trivial
  | cons space rest ih =>
      obtain ⟨first, others⟩ := List.forall_mem_cons.mp fits
      exact Lexeme.chain_append.mpr ⟨Space.chain_lexemes first _, ih others⟩

theorem stops_gap {holds : Char → Bool} (none : ∀ closer ∈ closers, holds closer = false) {after : List Char}
    (stops : Stops holds after) : Stops holds (gapText gap ++ after) := by
  cases gap with
  | nil => exact stops
  | cons space rest =>
      have first := fits space (.head _)
      have starts (closer : Char) (isCloser : closer ∈ closers) (rest : List Char) :
          Stops holds (closer :: rest) := stops_cons.mpr (none closer isCloser)
      rw [gapText, List.flatMap_cons, List.append_assoc]
      cases space with
      | blank blank => rcases first with rfl | rfl | rfl | ⟨-, rfl⟩ <;> exact starts _ (by decide) _
      | joined returned => cases returned <;> exact starts '\\' (by decide) _
      | feed => exact starts '\n' (by decide) _
      | comment body => exact starts '#' (by decide) _

theorem closes_gap {after : List Char} (closes : Closes after) : Closes (gapText gap ++ after) :=
  stops_gap fits (by decide) closes

end

namespace Line

open Progress

theorem gather_space {inside : Bool} {space : Space} (fits : space.Fits inside) {progress : Progress}
    (seen : progress.hidden = false) (deep : inside = true → progress.depth ≠ 0) (more : List Lexeme) :
    gather progress (space.lexemes ++ more) =
      gather { progress with
        gap := progress.gap ++ space.text
        joined := progress.joined || space.joins
        parted := if space.comments then progress.joined else progress.parted } more := by
  obtain ⟨depth, gap, joined, parted, hidden, tokens⟩ := progress
  obtain rfl : hidden = false := seen
  cases space with
  | blank character =>
      simp [Space.lexemes, Space.text, Space.joins, Space.comments, gather, addLexeme, skip]
  | joined returned =>
      simp [Space.lexemes, Space.text, Space.joins, Space.comments, gather, addLexeme, skip]
  | feed =>
      have inBrackets : depth ≠ 0 := deep fits
      simp [Space.lexemes, Space.text, Space.joins, Space.comments, gather, addLexeme, skip, inBrackets]
  | comment body =>
      have inBrackets : depth ≠ 0 := deep fits.1
      simp [Space.lexemes, Space.text, Space.joins, Space.comments, gather, addLexeme, skip, inBrackets]

/-- A gap is taken up as a whole where no line ends in it. -/
theorem gather_gap {inside : Bool} {gap : List Space} (fits : ∀ space ∈ gap, space.Fits inside)
    {progress : Progress} (seen : progress.hidden = false) (deep : inside = true → progress.depth ≠ 0)
    (sound : progress.parted = true → progress.joined = true) (more : List Lexeme) :
    gather progress (gapLexemes gap ++ more) =
      gather { progress with
        gap := progress.gap ++ gapText gap
        joined := progress.joined || gap.any Space.joins
        parted := progress.parted || (progress.joined && gap.any Space.comments) || partsJoined gap }
        more := by
  induction gap generalizing progress with
  | nil => simp [gapLexemes, gapText, partsJoined]
  | cons space rest ih =>
      obtain ⟨first, others⟩ := List.forall_mem_cons.mp fits
      have split : gapLexemes (space :: rest) ++ more = space.lexemes ++ (gapLexemes rest ++ more) := by
        simp [gapLexemes]
      -- A comment parts every joined line so far; without one, what was parted stays so.
      have parted : ((if space.comments then progress.joined else progress.parted) ||
            ((progress.joined || space.joins) && rest.any Space.comments) || partsJoined rest) =
          (progress.parted || (progress.joined && (space :: rest).any Space.comments) ||
            partsJoined (space :: rest)) := by
        rw [List.any_cons, partsJoined]
        revert sound
        generalize progress.joined = joined, progress.parted = parted, space.joins = joins,
          space.comments = comments, rest.any Space.comments = more, partsJoined rest = behind
        revert joined parted joins comments more behind
        decide
      rw [split, gather_space first seen deep, ih others]
      · rw [parted]
        simp [gapText, Bool.or_assoc]
      · exact seen
      · exact deep
      · intro holds
        split at holds
        · exact Bool.or_eq_true_iff.mpr (.inl holds)
        · exact Bool.or_eq_true_iff.mpr (.inl (sound holds))

end Line

/-! ## Operands -/

/-- A text that can come right after a sign, with no blank at its ends. -/
def Edged (text : List Char) : Prop :=
  (∃ first ∈ text.head?, IsGraphic first ∧ first ≠ '>' ∧ first ≠ '=') ∧ ∃ last ∈ text.getLast?, IsGraphic last

theorem edged_of_all {text : List Char} (nonempty : text ≠ [])
    (all : ∀ character ∈ text, character ∈ numberCharacters) : Edged text := by
  have each : ∀ character ∈ numberCharacters,
      IsGraphic character ∧ character ≠ '>' ∧ character ≠ '=' := by decide
  have first := each _ (all _ (List.head_mem nonempty))
  have last := each _ (all _ (List.getLast_mem nonempty))
  exact ⟨⟨_, List.head?_eq_some_head nonempty, first⟩, _, List.getLast?_eq_some_getLast nonempty, last.1⟩

inductive Operand where
  | integer (token : IntegerToken)
  | float (token : FloatToken)
  | truth (holds : Bool)
  | digits (string : DigitString)

namespace Operand

def kind : Operand → LexemeKind
  | integer _ => .integer
  | float _ => .float
  | truth _ => .word
  | digits _ => .string

def text : Operand → List Char
  | integer token => token.text
  | float token => token.text
  | truth holds => if holds then "True".toList else "False".toList
  | digits string => string.text

def IsProper : Operand → Prop
  | integer token => token.IsProper
  | float token => token.IsProper
  | truth _ => True
  | digits string => string.IsProper

variable {operand : Operand}

theorem is_token (operand : Operand) : operand.kind.isToken = true := by cases operand <;> rfl

theorem starts (proper : operand.IsProper) {after : List Char} (closes : Closes after) :
    Lexeme.Starts ⟨operand.kind, operand.text⟩ after := by
  cases operand with
  | integer token => exact IntegerToken.starts proper (stops_of_closes closes (by decide))
  | float token => exact FloatToken.starts proper (stops_of_closes closes (by decide))
  | truth holds =>
      cases holds <;>
        exact Lexeme.starts_identifier (by decide) (stops_of_closes closes (by decide))
          (stops_of_closes closes (by decide))
  | digits string => exact DigitString.starts proper after

theorem edged (proper : operand.IsProper) : Edged operand.text := by
  cases operand with
  | integer token =>
      obtain ⟨first, rest, whole, -⟩ := IntegerToken.text_starts_with_digit proper
      exact edged_of_all (show token.text ≠ [] by simp [whole]) token.mem_characters
  | float token => exact edged_of_all (FloatToken.text_ne_nil proper) token.mem_characters
  | truth holds => cases holds <;> exact ⟨⟨_, rfl, by decide⟩, _, rfl, by decide⟩
  | digits string =>
      refine ⟨?_, DigitString.last_graphic proper⟩
      have each : ∀ flag ∈ "rRuU".toList, IsGraphic flag ∧ flag ≠ '>' ∧ flag ≠ '=' := by decide
      cases same : string.flag with
      | some flag => exact ⟨flag, by simp [text, DigitString.text, same], each flag (proper.flag flag same)⟩
      | none =>
          refine ⟨string.mark, by simp [text, DigitString.text, DigitString.quote, same], ?_⟩
          rcases proper.mark with mark | mark <;> rw [mark] <;> decide

end Operand

/-! ## Expressions -/

inductive Expression where
  | operand (operand : Operand)
  | signed (negative : Bool) (gap : List Space) (inner : Expression)
  | round (opening : List Space) (inner : Expression) (closing : List Space)
  | int (gap opening : List Space) (inner : Expression) (closing : List Space)

def signSymbol (negative : Bool) : Char := if negative then '-' else '+'

def roundText (opening : List Space) (inner : List Char) (closing : List Space) : List Char :=
  '(' :: (gapText opening ++ (inner ++ (gapText closing ++ [')'])))

def symbol (character : Char) : Lexeme := ⟨.symbol, [character]⟩

def roundLexemes (opening : List Space) (inner : List Lexeme) (closing : List Space) : List Lexeme :=
  symbol '(' :: (gapLexemes opening ++ (inner ++ (gapLexemes closing ++ [symbol ')'])))

def tokenBehind (gap : List Space) (lexeme : Lexeme) : Token :=
  ⟨gapText gap, joinsBefore lexeme.kind gap, lexeme.kind, lexeme.text⟩

def roundTree (gap : List Space) (inner : List Tree) (closing : List Space) : Tree :=
  .group .round (tokenBehind gap (symbol '(')) inner (tokenBehind closing (symbol ')'))

namespace Expression

/-- Whether an expression is written properly, where a part inside brackets may go over several lines. -/
def Fits (inside : Bool) : Expression → Prop
  | operand single => single.IsProper
  | signed _ gap inner => (∀ space ∈ gap, space.Fits inside) ∧ inner.Fits inside
  | round opening inner closing =>
      (∀ space ∈ opening, space.Fits true) ∧ inner.Fits true ∧ ∀ space ∈ closing, space.Fits true
  | int gap opening inner closing =>
      (∀ space ∈ gap, space.Fits inside) ∧
        (∀ space ∈ opening, space.Fits true) ∧ inner.Fits true ∧ ∀ space ∈ closing, space.Fits true

def text : Expression → List Char
  | operand single => single.text
  | signed negative gap inner => signSymbol negative :: (gapText gap ++ inner.text)
  | round opening inner closing => roundText opening inner.text closing
  | int gap opening inner closing => "int".toList ++ (gapText gap ++ roundText opening inner.text closing)

def lexemes : Expression → List Lexeme
  | operand single => [⟨single.kind, single.text⟩]
  | signed negative gap inner => symbol (signSymbol negative) :: (gapLexemes gap ++ inner.lexemes)
  | round opening inner closing => roundLexemes opening inner.lexemes closing
  | int gap opening inner closing =>
      ⟨.word, "int".toList⟩ :: (gapLexemes gap ++ roundLexemes opening inner.lexemes closing)

def trees : List Space → Expression → List Tree
  | gap, operand single => [.leaf (tokenBehind gap ⟨single.kind, single.text⟩)]
  | gap, signed negative behind inner =>
      .leaf (tokenBehind gap (symbol (signSymbol negative))) :: inner.trees behind
  | gap, round opening inner closing => [roundTree gap (inner.trees opening) closing]
  | gap, int behind opening inner closing =>
      [.leaf (tokenBehind gap ⟨.word, "int".toList⟩), roundTree behind (inner.trees opening) closing]

theorem texts_lexemes (expression : Expression) : Lexeme.texts expression.lexemes = expression.text := by
  induction expression with
  | operand operand => simp [lexemes, text, Lexeme.texts]
  | signed negative gap inner ih =>
      simp [lexemes, text, symbol, Lexeme.texts, Lexeme.texts_append, texts_gap, ih]
  | round opening inner closing ih =>
      simp [lexemes, text, roundLexemes, roundText, symbol, Lexeme.texts, Lexeme.texts_append, texts_gap, ih]
  | int gap opening inner closing ih =>
      simp [lexemes, text, roundLexemes, roundText, symbol, Lexeme.texts, Lexeme.texts_append, texts_gap, ih]

theorem edged {expression : Expression} {inside : Bool} (fits : expression.Fits inside) :
    Edged expression.text := by
  have ends (opening closing : List Space) (inner : List Char) :
      ')' ∈ (roundText opening inner closing).getLast? := by
    have shape : roundText opening inner closing =
        '(' :: (gapText opening ++ (inner ++ gapText closing)) ++ [')'] := by simp [roundText]
    rw [shape, List.getLast?_concat]
    rfl
  induction expression generalizing inside with
  | operand single => exact Operand.edged fits
  | signed negative gap inner ih =>
      obtain ⟨last, isLast, graphic⟩ := (ih fits.2).2
      refine ⟨⟨signSymbol negative, rfl, by cases negative <;> decide⟩, last, ?_, graphic⟩
      have behind : last ∈ (signSymbol negative :: gapText gap ++ inner.text).getLast? :=
        List.mem_getLast?_append_of_mem_getLast? isLast
      exact behind
  | round opening inner closing ih =>
      exact ⟨⟨'(', rfl, by decide⟩, ')', ends opening closing inner.text, by decide⟩
  | int gap opening inner closing ih =>
      refine ⟨⟨'i', rfl, by decide⟩, ')', ?_, by decide⟩
      exact List.mem_getLast?_append_of_mem_getLast?
        (List.mem_getLast?_append_of_mem_getLast? (ends opening closing inner.text))

theorem starts_sign (negative : Bool) {after : List Char}
    (stops : Stops (fun c => c = '>' || c = '=') after) :
    Lexeme.Starts (symbol (signSymbol negative)) after := by
  cases negative with
  | true => exact Lexeme.starts_minus stops
  | false =>
      refine Lexeme.starts_sign (.inr (.inr rfl)) (stops_of_imp stops fun character isEquals => ?_)
      simp [beq_iff_eq.mp isEquals]

theorem chain_round {opening closing : List Space} (opens : ∀ space ∈ opening, space.Fits true)
    (closes : ∀ space ∈ closing, space.Fits true) {inner : List Lexeme}
    (within : ∀ after, Closes after → Lexeme.Chain inner after) (after : List Char) :
    Lexeme.Chain (roundLexemes opening inner closing) after := by
  refine ⟨Lexeme.starts_mark (.inl rfl) _, ?_⟩
  refine Lexeme.chain_append.mpr ⟨chain_gap opens _, Lexeme.chain_append.mpr ⟨?_, ?_⟩⟩
  · rw [Lexeme.texts_append, texts_gap, List.append_assoc]
    exact within _ (closes_gap closes (stops_cons.mpr (by decide)))
  · exact Lexeme.chain_append.mpr ⟨chain_gap closes _, Lexeme.starts_mark (.inr (.inl rfl)) _, trivial⟩

theorem chain {expression : Expression} {inside : Bool} (fits : expression.Fits inside) {after : List Char}
    (closes : Closes after) : Lexeme.Chain expression.lexemes after := by
  induction expression generalizing inside after with
  | operand single => exact ⟨Operand.starts fits closes, trivial⟩
  | signed negative gap inner ih =>
      obtain ⟨gapFits, innerFits⟩ := fits
      refine ⟨starts_sign negative ?_, Lexeme.chain_append.mpr ⟨chain_gap gapFits _, ih innerFits closes⟩⟩
      rw [Lexeme.texts_append, texts_gap, texts_lexemes, List.append_assoc]
      refine stops_gap gapFits (by decide) ?_
      obtain ⟨⟨first, isFirst, -, noMark⟩, -⟩ := edged innerFits
      obtain ⟨rest, same⟩ := List.head?_eq_some_iff.mp isFirst
      simp [same, noMark]
  | round opening inner closing ih =>
      obtain ⟨opens, innerFits, ends⟩ := fits
      exact chain_round opens ends (fun _ => ih innerFits) after
  | int gap opening inner closing ih =>
      obtain ⟨gapFits, opens, innerFits, ends⟩ := fits
      have bracket : Closes (Lexeme.texts (roundLexemes opening inner.lexemes closing) ++ after) :=
        stops_cons.mpr (by decide)
      have ended := closes_gap gapFits bracket
      constructor
      · rw [Lexeme.texts_append, texts_gap, List.append_assoc]
        exact Lexeme.starts_identifier (by decide) (stops_of_closes ended (by decide))
          (stops_of_closes ended (by decide))
      · apply Lexeme.chain_append.mpr
        exact ⟨chain_gap gapFits _, chain_round opens ends (fun _ => ih innerFits) after⟩

/-! ## Trees -/

theorem no_bracket_of_kind {token : Token} (noSymbol : token.kind ≠ .symbol) :
    Bracket.opened? token = none ∧ Bracket.closed? token = none := by
  simp [Bracket.opened?, Bracket.closed?, Token.isSymbol, noSymbol]

theorem balanced_round {gap closing : List Space} {inner : List Tree} (within : Tree.AllBalanced inner) :
    (roundTree gap inner closing).Balanced := ⟨rfl, rfl, rfl, within⟩

theorem balanced (gap : List Space) (expression : Expression) : Tree.AllBalanced (expression.trees gap) := by
  induction expression generalizing gap with
  | operand single =>
      exact ⟨no_bracket_of_kind (by cases single <;> simp [tokenBehind, Operand.kind]), trivial⟩
  | signed negative behind inner ih => exact ⟨by cases negative <;> exact ⟨rfl, rfl⟩, ih behind⟩
  | round opening inner closing ih => exact ⟨balanced_round (ih opening), trivial⟩
  | int behind opening inner closing ih =>
      exact ⟨no_bracket_of_kind (by simp [tokenBehind]), balanced_round (ih opening), trivial⟩

theorem trees_ne_nil (gap : List Space) (expression : Expression) : expression.trees gap ≠ [] := by
  cases expression <;> simp [trees]

end Expression

namespace Line

open Progress

theorem gather_behind {inside : Bool} {gap : List Space} (fits : ∀ space ∈ gap, space.Fits inside)
    {progress : Progress} (fresh : progress.Fresh) (deep : inside = true → progress.depth ≠ 0)
    {lexeme : Lexeme} (isToken : lexeme.kind.isToken = true) (more : List Lexeme) :
    gather progress (gapLexemes gap ++ lexeme :: more) =
      gather (progress.addToken (tokenBehind gap lexeme)) more := by
  obtain ⟨depth, _, _, _, _, tokens⟩ := progress
  obtain ⟨rfl, rfl, rfl, rfl⟩ := fresh
  rw [gather_gap fits rfl deep nofun]
  obtain ⟨kind, text⟩ := lexeme
  cases kind <;> first | rfl | cases isToken

theorem gather_round {inside : Bool} {gap opening closing : List Space}
    (fits : ∀ space ∈ gap, space.Fits inside) (ends : ∀ space ∈ closing, space.Fits true)
    {progress : Progress} (fresh : progress.Fresh) (deep : inside = true → progress.depth ≠ 0)
    {inner : List Lexeme} {trees : List Tree} (balanced : Tree.AllBalanced trees)
    (within : ∀ {progress : Progress}, progress.Fresh → progress.depth ≠ 0 → ∀ more,
      gather progress (gapLexemes opening ++ (inner ++ more)) =
        gather ((Tree.allTokens trees).foldl addToken progress) more) (more : List Lexeme) :
    gather progress (gapLexemes gap ++ (roundLexemes opening inner closing ++ more)) =
      gather ((roundTree gap trees closing).tokens.foldl addToken progress) more := by
  -- Lines may end between the brackets, since the depth is positive there and the same at their end.
  have opened : (progress.addToken (tokenBehind gap (symbol '('))).depth ≠ 0 := by
    rw [depth_add_token]
    exact Nat.succ_ne_zero _
  have held := depth_of_trees balanced (progress.addToken (tokenBehind gap (symbol '(')))
  rw [roundLexemes, List.cons_append, gather_behind fits fresh deep rfl]
  simp only [List.append_assoc, List.singleton_append]
  rw [within (fresh_add_token _ _) opened,
    gather_behind ends (fresh_foldl _ (fresh_add_token _ _)) (fun _ => held ▸ opened) rfl]
  simp [roundTree, Tree.tokens]

/-- The tokens of an expression are gathered with the gaps between them. -/
theorem gather_expression {expression : Expression} {inside : Bool} (fits : expression.Fits inside)
    {gap : List Space} (gapFits : ∀ space ∈ gap, space.Fits inside) {progress : Progress}
    (fresh : progress.Fresh) (deep : inside = true → progress.depth ≠ 0) (more : List Lexeme) :
    gather progress (gapLexemes gap ++ (expression.lexemes ++ more)) =
      gather ((Tree.allTokens (expression.trees gap)).foldl addToken progress) more := by
  induction expression generalizing inside gap progress more with
  | operand single => exact gather_behind gapFits fresh deep single.is_token more
  | signed negative behind inner ih =>
      have depth :
          (progress.addToken (tokenBehind gap (symbol (signSymbol negative)))).depth = progress.depth := by
        rw [depth_add_token]
        cases negative <;> rfl
      rw [Expression.lexemes, List.cons_append, gather_behind gapFits fresh deep rfl, List.append_assoc,
        ih fits.2 fits.1 (fresh_add_token _ _) (fun within => depth ▸ deep within)]
      rfl
  | round opening inner closing ih =>
      obtain ⟨opens, innerFits, ends⟩ := fits
      have gathered := gather_round gapFits ends fresh deep (inner.balanced opening)
        (fun fresh deep more => ih innerFits opens fresh (fun _ => deep) more) more
      simpa [Expression.lexemes, Expression.trees, Tree.allTokens] using gathered
  | int behind opening inner closing ih =>
      obtain ⟨behindFits, opens, innerFits, ends⟩ := fits
      have depth : (progress.addToken (tokenBehind gap ⟨.word, "int".toList⟩)).depth = progress.depth := by
        rw [depth_add_token]
        rfl
      have gathered := gather_round behindFits ends
        (fresh_add_token progress (tokenBehind gap ⟨.word, "int".toList⟩)) (fun within => depth ▸ deep within)
        (inner.balanced opening) (fun fresh deep more => ih innerFits opens fresh (fun _ => deep) more) more
      rw [Expression.lexemes, List.cons_append, gather_behind gapFits fresh deep rfl, List.append_assoc,
        gathered]
      simp [Expression.trees, Tree.allTokens, Tree.tokens]

theorem of_text_expression {expression : Expression} (fits : expression.Fits false) :
    ofText expression.text = [ofTrees (expression.trees [])] := by
  have scanned := Lexeme.scan_from_chain (Expression.chain fits (stops_nil : Closes []))
  rw [Expression.texts_lexemes, List.append_nil] at scanned
  have gathered := gather_expression fits (List.forall_mem_nil _) fresh_start (by simp) []
  have noMark : expression.text.head? ≠ some '\ufeff' := by
    obtain ⟨⟨first, isFirst, graphic, -⟩, -⟩ := Expression.edged fits
    rw [Option.mem_def.mp isFirst]
    rintro same
    obtain rfl := Option.some.inj same
    exact absurd graphic (by decide)
  rw [ofText, Lexeme.scan_of_no_mark noMark, scanned]
  exact gathered.trans (end_line_of_trees (Expression.trees_ne_nil [] expression))

end Line

end TaskCab.Source
