import TaskCab.Proofs.Source.Bracketing
import TaskCab.Proofs.Source.LineLexemes
import TaskCab.Proofs.Source.PlainParts

/-!
# Texts that begin with an attribute

A name and a point in front of an expression make it no plain data, whatever comes behind them.
-/

namespace TaskCab.Source

namespace Line

open Progress

theorem tokens_suffix_add (progress : Progress) (lexeme : Lexeme) :
    progress.tokens <:+ (progress.addLexeme lexeme).tokens := by
  have added (next : Token) : progress.tokens <:+ (progress.addToken next).tokens := List.suffix_cons _ _
  have same : progress.tokens <:+ progress.tokens := List.suffix_rfl
  unfold addLexeme
  split
  · exact same
  · exact same
  · exact same
  · exact same
  · exact same
  · split
    · exact added _
    · exact added _
  · exact added _

theorem starts_of_reversed {tokens : List Token} (nonempty : tokens ≠ []) :
    ∃ line, ofReversed tokens = [line] ∧ line.tokens = tokens.reverse := by
  unfold ofReversed
  cases same : tokens.reverse with
  | nil => exact absurd (List.reverse_eq_nil_iff.mp same) nonempty
  | cons token rest => exact ⟨_, rfl, rfl⟩

theorem starts_of_end {progress : Progress} (nonempty : progress.tokens ≠ []) :
    ∃ line, progress.endLine = [line] ∧ progress.tokens.reverse <+: line.tokens := by
  unfold endLine
  split
  · obtain ⟨line, ends, same⟩ :=
      starts_of_reversed (List.cons_ne_nil (Token.stray progress.gap) progress.tokens)
    exact ⟨line, ends, same ▸ List.reverse_prefix.mpr (List.suffix_cons _ _)⟩
  · obtain ⟨line, ends, same⟩ := starts_of_reversed nonempty
    exact ⟨line, ends, same ▸ List.prefix_rfl⟩

theorem starts_of_gather (lexemes : List Lexeme) {progress : Progress} (nonempty : progress.tokens ≠ []) :
    ∃ line others, gather progress lexemes = line :: others ∧ progress.tokens.reverse <+: line.tokens := by
  induction lexemes generalizing progress with
  | nil =>
      obtain ⟨line, ends, starts⟩ := starts_of_end nonempty
      exact ⟨line, [], ends, starts⟩
  | cons lexeme rest ih =>
      rw [gather]
      split
      · obtain ⟨line, ends, starts⟩ := starts_of_end nonempty
        exact ⟨line, gather .start rest, by rw [ends, List.singleton_append], starts⟩
      · have grows := tokens_suffix_add progress lexeme
        have added : (progress.addLexeme lexeme).tokens ≠ [] := fun none =>
          nonempty (List.suffix_nil.mp (none ▸ grows))
        obtain ⟨line, others, gathered, starts⟩ := ih added
        exact ⟨line, others, gathered, (List.reverse_prefix.mpr grows).trans starts⟩

end Line

namespace Tree

theorem leaf_first {trees : List Tree} {token : Token} {rest : List Token} (balanced : AllBalanced trees)
    (tokens : allTokens trees = token :: rest) (noBracket : Bracket.opened? token = none) :
    ∃ others, trees = .leaf token :: others ∧ AllBalanced others ∧ allTokens others = rest := by
  cases trees with
  | nil => cases tokens
  | cons tree others =>
      cases tree with
      | leaf single =>
          obtain ⟨rfl, later⟩ := List.cons.inj tokens
          exact ⟨others, rfl, balanced.2, later⟩
      | group bracket opening inner closing =>
          obtain ⟨rfl, -⟩ := List.cons.inj tokens
          simp [balanced.1.1] at noBracket

end Tree

namespace Literal

open TaskCab.Source.Literal.Part

section

variable {word point : Token} (isWord : word.kind = .word)

include isWord

theorem item_of_attribute (rest : List Part) : item? (.token word :: .token point :: rest) = none := by
  have noArgument : ¬IsArgument (.token point :: rest) := by
    rintro ⟨joined, argument, isTuple, same⟩
    cases same
  rw [item_token word (List.cons_ne_nil _ _) noArgument, strings_token]
  simp [Token.isSymbol, isWord]

variable (isPoint : point.isSymbol "." = true)

include isPoint

theorem pieces_of_attribute (rest : List Part) :
    ∃ more others, pieces (.token word :: .token point :: rest) =
      (.token word :: .token point :: more) :: others := by
  have notWord : Part.isSymbol "," (.token word) = false := by simp [Part.isSymbol, Token.isSymbol, isWord]
  have notPoint : Part.isSymbol "," (.token point) = false := by
    simp only [Token.isSymbol, Bool.and_eq_true, decide_eq_true_eq] at isPoint
    simp [Part.isSymbol, Token.isSymbol, isPoint.2]
  obtain ⟨more, others, found⟩ := List.exists_cons_of_ne_nil (cut_ne_nil "," rest)
  have cuts : cut "," (.token word :: .token point :: rest) =
      (.token word :: .token point :: more) :: others := by
    simp [cut, notWord, notPoint, found]
  rw [pieces, cuts]
  split
  next empty =>
    cases others with
    | nil => simp at empty
    | cons next later => exact ⟨more, _, by rw [List.dropLast_cons_cons]⟩
  next => exact ⟨more, others, rfl⟩

/-- A line that begins with a name and a point is no plain data. -/
theorem line_value_of_attribute (rest : List Part) :
    lineValue? (.token word :: .token point :: rest) = none := by
  have kept : ∃ more, dropSemicolon (.token word :: .token point :: rest) =
      .token word :: .token point :: more := by
    unfold dropSemicolon
    split
    · split
      next last found ends =>
        cases rest with
        | nil =>
            obtain rfl : .token point = last := by simpa using found
            simp only [Token.isSymbol, Bool.and_eq_true, decide_eq_true_eq] at isPoint
            simp [Part.isSymbol, Token.isSymbol, isPoint.2] at ends
        | cons part more => exact ⟨(part :: more).dropLast, rfl⟩
      next => exact ⟨rest, rfl⟩
    · exact ⟨rest, rfl⟩
  obtain ⟨more, kept⟩ := kept
  rw [lineValue?, kept]
  split
  · obtain ⟨behind, others, cuts⟩ := pieces_of_attribute isWord isPoint more
    have noValue := @item_of_attribute word point isWord behind
    simp [items?, cuts, noValue]
  · split
    · rfl
    · exact item_of_attribute isWord more

end

/-- A text that begins with a name and a point is no plain data. -/
theorem read_of_attribute {text name : List Char} {others : List Lexeme}
    (scanned : Lexeme.scan (Text.trim text) = ⟨.word, name⟩ :: ⟨.symbol, ['.']⟩ :: others) :
    read? text = none := by
  let word : Token := ⟨[], false, .word, name⟩
  let point : Token := ⟨[], false, .symbol, ['.']⟩
  have gathered : Line.ofText (Text.trim text) =
      Line.gather ((Line.Progress.start.addToken word).addToken point) others := by
    rw [Line.ofText, scanned]
    rfl
  obtain ⟨line, lines, isFirst, tokens, starts⟩ :=
    @Line.starts_of_gather others ((Line.Progress.start.addToken word).addToken point) (List.cons_ne_nil _ _)
  rw [← gathered] at isFirst
  unfold read?
  rw [isFirst]
  cases lines with
  | cons next more => rfl
  | nil =>
      dsimp only
      cases grouped : Tree.ofTokens? line.tokens with
      | none => rfl
      | some trees =>
          obtain ⟨balanced, same⟩ := Tree.of_tokens_sound grouped
          have whole : Tree.allTokens trees = word :: point :: tokens := same.trans starts.symm
          obtain ⟨behind, rfl, balancedBehind, wholeBehind⟩ := Tree.leaf_first balanced whole rfl
          obtain ⟨rest, rfl, -, -⟩ := Tree.leaf_first balancedBehind wholeBehind rfl
          exact line_value_of_attribute rfl rfl (parts rest)

end Literal

end TaskCab.Source
