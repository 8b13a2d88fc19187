import TaskCab.Proofs.Source.TokenEdges
import TaskCab.Proofs.Text.Joined
import TaskCab.Proofs.Value.Pieces

/-!
# Lines that are written out

A source put together from lines is gathered into these lines. Identifiers are tokens of them wherever the
text goes on with no part of a word and no quotation mark.
-/

namespace TaskCab.Source

open TaskCab.Text

namespace Lexeme

/-- Whether a text is a run of letters, digits and underscores that does not start with a digit. -/
def IsIdentifier (text : List Char) : Prop :=
  (text.head?.any fun first => first.isAlpha || first = '_') = true ∧
    ∀ character ∈ text, character.isAlphanum = true ∨ character = '_'

instance : DecidablePred IsIdentifier := fun _ => inferInstanceAs (Decidable (_ ∧ _))

theorem word_part_of_identifier {character : Char}
    (part : character.isAlphanum = true ∨ character = '_') : isWordPart character = true := by
  rcases part with letter | rfl
  · rcases Bool.or_eq_true_iff.mp letter with letter | digit
    · simp [isWordPart, isWordStart, letter]
    · simp [isWordPart, digit]
  · rfl

theorem visible_of_letter {character : Char} (letter : character.isAlpha = true ∨ character = '_') :
    IsVisible character ∧ character.isDigit = false ∧ character ≠ '.' := by
  have different {other : Char} (noLetter : other.isAlpha = false ∧ other ≠ '_') :
      character ≠ other := by
    rintro rfl
    rcases letter with alpha | rfl
    · simp [noLetter.1] at alpha
    · exact noLetter.2 rfl
  have notDigit : character.isDigit = false := by
    apply Bool.eq_false_iff.mpr
    intro digit
    rcases letter with alpha | rfl
    · unfold Char.isAlpha Char.isUpper Char.isLower at alpha
      unfold Char.isDigit at digit
      simp only [Bool.or_eq_true, Bool.and_eq_true, decide_eq_true_eq, UInt32.le_iff_toNat_le,
        ge_iff_le] at alpha digit
      simp at alpha digit
      omega
    · exact absurd digit (by decide)
  refine ⟨⟨different (by decide), ?_, different (by decide), different (by decide), ?_⟩, notDigit,
    different (by decide)⟩
  · simp [isBlank, @different ' ' (by decide), @different '\t' (by decide),
      @different '\r' (by decide), @different '\x0c' (by decide)]
  · simp [isUnseen, @different '\x0b' (by decide), @different '\ufeff' (by decide),
      @different '\u200b' (by decide), @different '\u2060' (by decide)]

theorem number_of_letter {character : Char} (notDigit : character.isDigit = false)
    (notPoint : character ≠ '.') (rest : List Char) : (number (character :: rest)).2 = 0 := by
  have notZero : character ≠ '0' := by
    rintro rfl
    simp at notDigit
  have noMark : radixNumber (character :: rest) = 0 := by simp [radixNumber, notZero]
  have noDigits : decimalLength false (character :: rest) = 0 := by simp [decimalLength, notDigit]
  have noFraction : fractionLength (character :: rest) = 0 := by simp [fractionLength, notPoint]
  have noFloat : floatLength 0 (character :: rest) = 0 := by simp [float_length_eq, noFraction]
  rw [number_eq, if_pos noMark, decimalNumber, noDigits]
  simp [noFloat]

/-- No string starts where an identifier does, unless a quotation mark follows it. -/
theorem no_opening_of_identifier {text : List Char} (identifier : IsIdentifier text)
    {after : List Char} (ends : Stops isWordPart after) (noMark : Stops Quoted.isMark after) :
    Quoted.opening? (text ++ after) = none := by
  have noFlag : after.dropWhile Quoted.isFlag = after :=
    drop_while_stops (stops_of_imp ends fun _ => word_part_of_flag)
  rw [opening_none_iff]
  intro character isHead
  rw [List.dropWhile_append] at isHead
  split at isHead
  next =>
    rw [noFlag] at isHead
    exact noMark character isHead
  next nonempty =>
    have inText : character ∈ text := by
      apply (List.dropWhile_sublist Quoted.isFlag).subset
      cases found : text.dropWhile Quoted.isFlag with
      | nil => simp [found] at nonempty
      | cons first rest =>
          obtain rfl : first = character := by simpa [found] using isHead
          exact .head _
    have part := identifier.2 character inText
    apply Bool.eq_false_iff.mpr
    intro mark
    have cases : (character = '\'' ∨ character = '"') ∨ character = '`' := by
      simpa [Quoted.isMark] using mark
    rcases cases with (rfl | rfl) | rfl <;> exact absurd part (by decide)

theorem starts_identifier {text : List Char} (identifier : IsIdentifier text) {after : List Char}
    (ends : Stops isWordPart after) (noMark : Stops Quoted.isMark after) :
    Starts ⟨.word, text⟩ after := by
  have noString := no_opening_of_identifier identifier ends noMark
  obtain ⟨starts, parts⟩ := identifier
  obtain ⟨character, rest, rfl⟩ : ∃ character rest, text = character :: rest := by
    cases text with
    | nil => simp at starts
    | cons first rest => exact ⟨first, rest, rfl⟩
  have letter : character.isAlpha = true ∨ character = '_' := by simpa using starts
  obtain ⟨visible, notDigit, notPoint⟩ := visible_of_letter letter
  have isStart : isWordStart character = true := by
    rcases letter with alpha | rfl
    · simp [isWordStart, alpha]
    · rfl
  have isPart : ∀ part ∈ character :: rest, isWordPart part = true :=
    fun part member => word_part_of_identifier (parts part member)
  refine ⟨character, rest, rfl, ?_⟩
  have run := take_while_run (fun part member => isPart part (.tail _ member)) ends
  rw [first_visible visible, ← List.cons_append, noString]
  dsimp only
  rw [bare, if_neg (by simpa using number_of_letter notDigit notPoint _), if_pos isStart, run,
    List.length_cons, Nat.add_comm]

end Lexeme

/-! ## Lines -/

theorem Token.opens_eq (token : Token) : token.opens = (Bracket.opened? token).isSome := by
  unfold Token.opens Bracket.opened?
  cases token.isSymbol "(" <;> cases token.isSymbol "[" <;> cases token.isSymbol "\x7b" <;> rfl

theorem Token.closes_eq (token : Token) : token.closes = (Bracket.closed? token).isSome := by
  unfold Token.closes Bracket.closed?
  cases token.isSymbol ")" <;> cases token.isSymbol "]" <;> cases token.isSymbol "\x7d" <;> rfl

theorem Tree.all_tokens_ne_nil {trees : List Tree} (nonempty : trees ≠ []) : allTokens trees ≠ [] := by
  obtain ⟨tree, rest, rfl⟩ := List.exists_cons_of_ne_nil nonempty
  cases tree <;> simp [allTokens, tokens]

namespace Line

open Progress

theorem depth_add_token (progress : Progress) (token : Token) :
    (progress.addToken token).depth =
      if (Bracket.opened? token).isSome then progress.depth + 1
      else if (Bracket.closed? token).isSome then progress.depth - 1
      else progress.depth := by
  rw [← token.opens_eq, ← token.closes_eq]
  rfl

mutual

/-- As many brackets are open behind a balanced tree as in front of it. -/
theorem depth_of_tree {tree : Tree} (balanced : tree.Balanced) (progress : Progress) :
    (tree.tokens.foldl addToken progress).depth = progress.depth := by
  match tree with
  | .leaf token =>
      obtain ⟨notOpened, notClosed⟩ := balanced
      have depth := depth_add_token progress token
      simpa [Tree.tokens, notOpened, notClosed] using depth
  | .group bracket opening inner closing =>
      obtain ⟨opened, notOpened, closed, within⟩ := balanced
      have inside : (progress.addToken opening).depth = progress.depth + 1 := by
        rw [depth_add_token, opened]
        rfl
      have last := depth_add_token
        ((Tree.allTokens inner).foldl addToken (progress.addToken opening)) closing
      rw [depth_of_trees within, inside, notOpened, closed] at last
      simpa [Tree.tokens] using last

theorem depth_of_trees {trees : List Tree} (balanced : Tree.AllBalanced trees)
    (progress : Progress) : ((Tree.allTokens trees).foldl addToken progress).depth = progress.depth := by
  match trees with
  | [] => rfl
  | tree :: rest =>
      rw [Tree.allTokens, List.foldl_append, depth_of_trees balanced.2, depth_of_tree balanced.1]

end

def ofTrees (trees : List Tree) : Line :=
  ⟨indentOf (((Tree.allTokens trees).head?.map Token.gap).getD []), Tree.allTokens trees⟩

/-- The line that ends behind some trees is the line of them. -/
theorem end_line_of_trees {trees : List Tree} (nonempty : trees ≠ []) :
    ((Tree.allTokens trees).foldl addToken .start).endLine = [ofTrees trees] := by
  have seen := (fresh_foldl (Tree.allTokens trees) fresh_start).seen
  obtain ⟨first, others, same⟩ := List.exists_cons_of_ne_nil (Tree.all_tokens_ne_nil nonempty)
  rw [endLine, seen, tokens_foldl]
  simp [Progress.start, ofReversed, ofTrees, same]

/-- Written trees are gathered, and then the line of them can end. -/
theorem gather_written {trees : List Tree} {text : List Char} (writes : Value.Writes trees text)
    (nonempty : trees ≠ []) {after : List Char} (isEnd : IsEnd after) :
    ∃ progress : Progress, progress.depth = 0 ∧ progress.tokens.isEmpty = false ∧
      progress.endLine = [ofTrees trees] ∧
        gather .start (Lexeme.scanFrom 0 (text ++ after)) =
          gather progress (Lexeme.scanFrom 0 after) := by
  have run := writes.run after isEnd
  have scanned := Lexeme.scan_from_chain (Token.chain_lexemes run)
  rw [Token.texts_lexemes, writes.text] at scanned
  refine ⟨(Tree.allTokens trees).foldl addToken .start, depth_of_trees writes.balanced .start,
    ?_, end_line_of_trees nonempty, ?_⟩
  · obtain ⟨first, others, same⟩ := List.exists_cons_of_ne_nil (Tree.all_tokens_ne_nil nonempty)
    rw [tokens_foldl]
    simp [same]
  · rw [scanned, gather_run run fresh_start]

theorem gather_line {trees : List Tree} {text : List Char} (writes : Value.Writes trees text)
    (nonempty : trees ≠ []) (rest : List Char) :
    gather .start (Lexeme.scanFrom 0 (text ++ '\n' :: rest)) =
      ofTrees trees :: gather .start (Lexeme.scanFrom 0 rest) := by
  have isEnd : IsEnd ('\n' :: rest) := is_end_cons.mpr (by decide)
  obtain ⟨progress, depth, some, ends, gathered⟩ := gather_written writes nonempty isEnd
  have newline : Lexeme.scanFrom 0 ('\n' :: rest) =
      ⟨.newline, ['\n']⟩ :: Lexeme.scanFrom 0 rest := rfl
  rw [gathered, newline, gather, depth, some, ends]
  rfl

theorem gather_last {trees : List Tree} {text : List Char} (writes : Value.Writes trees text)
    (nonempty : trees ≠ []) : gather .start (Lexeme.scanFrom 0 text) = [ofTrees trees] := by
  obtain ⟨progress, -, -, ends, gathered⟩ := gather_written writes nonempty is_end_nil
  rw [List.append_nil] at gathered
  rw [gathered, Lexeme.scanFrom, gather, ends]

/-- Lines that are written one below the other are the lines of the text. The last one may have a line
feed behind it. -/
theorem of_text_lines {lines : List (List Tree)} {texts : List (List Char)}
    (writes : List.Forall₂ Value.Writes lines texts) (nonempty : ∀ trees ∈ lines, trees ≠ [])
    {ending : List Char} (ends : ending = [] ∨ ending = ['\n'])
    (noMark : (joinWith ['\n'] texts ++ ending).head? ≠ some '\ufeff') :
    ofText (joinWith ['\n'] texts ++ ending) = lines.map ofTrees := by
  rw [ofText, Lexeme.scan_of_no_mark noMark]
  clear noMark
  induction writes with
  | nil => rcases ends with rfl | rfl <;> rfl
  | @cons trees text lines texts first rest ih =>
      obtain ⟨some, others⟩ := List.forall_mem_cons.mp nonempty
      cases rest with
      | nil =>
          have single : joinWith ['\n'] [text] = text := by simp [joinWith]
          rw [single]
          rcases ends with rfl | rfl
          · rw [List.append_nil]
            exact gather_last first some
          · exact gather_line first some []
      | @cons next nextText lines texts second rest =>
          rw [join_with_cons_cons, List.append_assoc, List.append_assoc, List.singleton_append,
            gather_line first some, ih others]
          rfl

end Line

end TaskCab.Source
