import TaskCab.Proofs.Source.TreeCuts
import TaskCab.Proofs.Value.RoundTrip

/-!
# Cutting literals

The trees of a value hold no comma outside of brackets, so that a cut at the commas between pieces gives the
pieces back. The trees of a literal have the literal as their text, and those of a string its text as
their value.
-/

namespace TaskCab.Value

open TaskCab.Source TaskCab.Text

/-- Whether the trees of a piece hold no comma outside of brackets, and no `lambda`. -/
def Piece.IsPlain (piece : Piece) : Prop := ∀ gap, Tree.Plain "," (piece gap)

theorem leaf_plain {kind : LexemeKind} (noSymbol : kind ≠ .symbol) {text : List Char}
    (noLambda : kind = .word → text ≠ "lambda".toList) : (leafPiece kind text).IsPlain := by
  intro gap
  refine Tree.plain_cons.mpr ⟨⟨?_, ?_⟩, Tree.plain_nil⟩
  · simp [Tree.isSymbol, Token.isSymbol, token, noSymbol]
  · rw [Tree.isWord, Token.isWord, Bool.and_eq_false_imp]
    intro isWord
    exact decide_eq_false (noLambda (of_decide_eq_true isWord))

theorem signed_plain (negative : Bool) {kind : LexemeKind} (noSymbol : kind ≠ .symbol)
    {text : List Char} (noLambda : kind = .word → text ≠ "lambda".toList) :
    (signedPiece negative kind text).IsPlain := by
  have plain := leaf_plain noSymbol noLambda
  cases negative with
  | false => exact plain
  | true => exact fun gap => Tree.plain_cons.mpr ⟨⟨rfl, rfl⟩, plain []⟩

theorem group_plain (bracket : Bracket) (opening closing : Char) (pieces : List Piece) :
    (groupPiece bracket opening closing pieces).IsPlain :=
  fun _ => Tree.plain_cons.mpr ⟨⟨rfl, rfl⟩, Tree.plain_nil⟩

theorem piece_plain (value : Value) : (piece value).IsPlain := by
  cases value with
  | null => exact leaf_plain (by decide) (by decide)
  | bool truth => cases truth <;> exact leaf_plain (by decide) (by decide)
  | int word => exact signed_plain _ (by decide) nofun
  | float number =>
      unfold piece floatPiece
      split
      · exact leaf_plain (by decide) (by decide)
      split
      · exact signed_plain _ (by decide) (by decide)
      · exact signed_plain _ (by decide) nofun
  | str text => exact leaf_plain (by decide) nofun
  | list items => exact group_plain _ _ _ _
  | map entries => exact group_plain _ _ _ _

theorem entry_plain (key : String) {value : Piece} (plain : value.IsPlain) :
    (entryPiece key value).IsPlain :=
  fun _ => Tree.plain_cons.mpr ⟨⟨rfl, rfl⟩, Tree.plain_cons.mpr ⟨⟨rfl, rfl⟩, plain [' ']⟩⟩

/-- A cut at the commas between pieces gives the pieces back. -/
theorem cut_join_pieces {piece : Piece} {rest : List Piece}
    (plain : ∀ other ∈ piece :: rest, other.IsPlain) :
    Tree.cut "," (joinPieces (piece :: rest)) = piece [] :: rest.map fun other => other [' '] := by
  have tail (gap : List Char) :
      Tree.cut "," (piece gap ++ rest.flatMap fun other => comma :: other [' ']) =
        piece gap :: rest.map fun other => other [' '] := by
    induction rest generalizing piece gap with
    | nil => simpa using Tree.cut_plain (plain piece (.head _) gap)
    | cons next rest ih =>
        obtain ⟨first, later⟩ := List.forall_mem_cons.mp plain
        rw [List.flatMap_cons, List.cons_append, Tree.cut_plain_append (first gap) rfl, ih later]
        rfl
  exact tail []

theorem graphic_not_gap {character : Char} (graphic : IsGraphic character) :
    ¬(Lexeme.isBlank character = true ∨ Lexeme.isUnseen character = true) := by
  have differs {other : Char} (notGraphic : ¬IsGraphic other) : character ≠ other := by
    rintro rfl
    exact notGraphic graphic
  simp [Lexeme.isBlank, Lexeme.isUnseen, @differs ' ' (by decide), @differs '\t' (by decide),
    @differs '\r' (by decide), @differs '\x0c' (by decide), @differs '\x0b' (by decide),
    @differs '\ufeff' (by decide), @differs '\u200b' (by decide), @differs '\u2060' (by decide)]

theorem text_of_writes {trees : List Tree} {text : List Char} (writes : Writes trees text)
    (framed : Framed text) : Tree.text trees = text := by
  obtain ⟨⟨first, atHead, graphic⟩, -⟩ := framed
  have run := writes.run [] is_end_nil
  have written := writes.text
  unfold Tree.text
  cases tokens : Tree.allTokens trees with
  | nil => simpa [tokens, Tree.tokensText] using written
  | cons token rest =>
      rw [tokens] at run written
      have noGap : token.gap = [] := by
        cases gap : token.gap with
        | nil => rfl
        | cons character more =>
            have isGap := run.1.gap character (by simp [gap])
            obtain rfl : character = first := by
              simpa [← written, Tree.tokensText, gap] using atHead
            exact absurd isGap (graphic_not_gap graphic)
      rw [← written, Tree.tokensText, noGap]
      simp

end TaskCab.Value
