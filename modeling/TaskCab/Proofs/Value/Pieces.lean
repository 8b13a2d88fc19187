import TaskCab.Proofs.Source.Bracketing
import TaskCab.Proofs.Source.TokenText
import TaskCab.Proofs.Text.Joined
import TaskCab.Proofs.Value.Content

/-!
# Literals as trees

The bracket trees of the literal of a value, built the way the literal is. A piece is what stands for an
item of a list or an entry of a map; its gap is the blank in front of it.
-/

namespace TaskCab.Value

open TaskCab.Source

/-- The trees of a part of a literal, given the text in front of its first token. -/
abbrev Piece := List Char → List Tree

def token (kind : LexemeKind) (text gap : List Char) : Token := ⟨gap, false, kind, text⟩

def leafPiece (kind : LexemeKind) (text : List Char) : Piece :=
  fun gap => [.leaf (token kind text gap)]

def signedPiece (negative : Bool) (kind : LexemeKind) (text : List Char) : Piece :=
  if negative then fun gap => [.leaf (token .symbol ['-'] gap), .leaf (token kind text [])]
  else leafPiece kind text

def floatPiece (number : Binary64) : Piece :=
  if number.isNaN then leafPiece .word "nan".toList
  else if number.isInfinite then signedPiece number.isNegative .word "inf".toList
  else signedPiece number.isNegative .float (floatLayout.unsigned number.magnitude)

def comma : Tree := .leaf (token .symbol [','] [])

def joinPieces : List Piece → List Tree
  | [] => []
  | piece :: rest => piece [] ++ rest.flatMap fun piece => comma :: piece [' ']

def groupPiece (bracket : Bracket) (opening closing : Char) (pieces : List Piece) : Piece :=
  fun gap => [.group bracket (token .symbol [opening] gap) (joinPieces pieces)
    (token .symbol [closing] [])]

def entryPiece (key : String) (value : Piece) : Piece :=
  fun gap => .leaf (token .string (textLiteral key.toList) gap) ::
    .leaf (token .symbol [':'] []) :: value [' ']

mutual

def piece : Value → Piece
  | null => leafPiece .word "None".toList
  | bool true => leafPiece .word "True".toList
  | bool false => leafPiece .word "False".toList
  | int word =>
      signedPiece (decide (word.toInt < 0)) .integer (Integer.digits word.toInt.natAbs)
  | float number => floatPiece number
  | str text => leafPiece .string (textLiteral text.toList)
  | list items => groupPiece .square '[' ']' (itemPieces items)
  | map entries => groupPiece .curly '\x7b' '\x7d' (entryPieces entries)

def itemPieces : List Value → List Piece
  | [] => []
  | item :: rest => piece item :: itemPieces rest

def entryPieces : List (String × Value) → List Piece
  | [] => []
  | (key, value) :: rest => entryPiece key (piece value) :: entryPieces rest

end

/-- Whether trees are written as a text, and their tokens are found again in it, in front of what can
follow a value. -/
structure Writes (trees : List Tree) (text : List Char) : Prop where
  text : Tree.tokensText (Tree.allTokens trees) = text
  run : ∀ after, IsEnd after → Token.Run (Tree.allTokens trees) after
  balanced : Tree.AllBalanced trees

def Piece.Writes (piece : Piece) (text : List Char) : Prop :=
  ∀ gap, (∀ c ∈ gap, Lexeme.isBlank c = true) → Value.Writes (piece gap) (gap ++ text)

theorem writes_nil : Writes [] [] := ⟨rfl, fun _ _ => trivial, trivial⟩

theorem writes_append {left right : List Tree} {text rest : List Char} (first : Writes left text)
    (second : Writes right rest) (isEnd : ∀ after, IsEnd after → IsEnd (rest ++ after)) :
    Writes (left ++ right) (text ++ rest) where
  text := by rw [Tree.all_tokens_append, Token.tokens_text_append, first.text, second.text]
  run after ends := by
    rw [Tree.all_tokens_append]
    refine Token.run_append.mpr ⟨?_, second.run after ends⟩
    rw [second.text]
    exact first.run _ (isEnd after ends)
  balanced := Tree.all_balanced_append.mpr ⟨first.balanced, second.balanced⟩

/-- A token in front of trees, which is found again in front of their text. -/
theorem writes_cons (kind : LexemeKind) (text gap : List Char) {rest : List Char}
    {trees : List Tree} (isToken : kind.isToken = true) (blank : ∀ c ∈ gap, Lexeme.isBlank c = true)
    (balanced : Tree.Balanced (.leaf (token kind text gap))) (writes : Writes trees rest)
    (starts : ∀ after, IsEnd after → Lexeme.Starts ⟨kind, text⟩ (rest ++ after)) :
    Writes (.leaf (token kind text gap) :: trees) (gap ++ text ++ rest) where
  text := by
    have later := writes.text
    simp [Tree.allTokens, Tree.tokens, Tree.tokensText, token, later]
  run after ends := by
    have found := starts after ends
    rw [← writes.text] at found
    exact ⟨⟨fun c member => .inl (blank c member), rfl, isToken, fun _ => blank, found⟩,
      writes.run after ends⟩
  balanced := ⟨balanced, writes.balanced⟩

theorem balanced_leaf {kind : LexemeKind} (notSymbol : kind ≠ .symbol) (text gap : List Char) :
    Tree.Balanced (.leaf (token kind text gap)) := by
  simp [Tree.Balanced, Bracket.opened?, Bracket.closed?, Token.isSymbol, token, notSymbol]

theorem leaf_writes (kind : LexemeKind) {text : List Char} (isToken : kind.isToken = true)
    (notSymbol : kind ≠ .symbol)
    (starts : ∀ after, IsEnd after → Lexeme.Starts ⟨kind, text⟩ after) :
    (leafPiece kind text).Writes text := by
  intro gap blank
  have writes := writes_cons kind text gap isToken blank (balanced_leaf notSymbol text gap)
    writes_nil starts
  simpa [leafPiece] using writes

theorem signed_writes (kind : LexemeKind) (text : List Char) (isToken : kind.isToken = true)
    (notSymbol : kind ≠ .symbol)
    (starts : ∀ after, IsEnd after → Lexeme.Starts ⟨kind, text⟩ after)
    (noArrow : ∀ after, Text.Stops (fun c => c = '>' || c = '=') (text ++ after)) (negative : Bool) :
    (signedPiece negative kind text).Writes ((if negative then ['-'] else []) ++ text) := by
  cases negative with
  | false => exact leaf_writes kind isToken notSymbol starts
  | true =>
      intro gap blank
      have number := leaf_writes kind isToken notSymbol starts [] (by simp)
      have writes := writes_cons .symbol ['-'] gap rfl blank ⟨rfl, rfl⟩ number
        fun after _ => Lexeme.starts_minus (noArrow after)
      simpa [signedPiece, leafPiece] using writes

theorem no_arrow_of_digits {digits : List Char} (nonempty : digits ≠ [])
    (areDigits : Numeral.IsDigits digits) (after : List Char) :
    Text.Stops (fun c => c = '>' || c = '=') (digits ++ after) := by
  obtain ⟨digit, rest, rfl⟩ := List.exists_cons_of_ne_nil nonempty
  have isDigit := areDigits digit (.head _)
  rw [List.cons_append, Text.stops_cons]
  refine Bool.eq_false_iff.mpr fun arrow => ?_
  have cases : digit = '>' ∨ digit = '=' := by simpa using arrow
  rcases cases with rfl | rfl <;> simp at isDigit

theorem int_writes (word : Int64) : (piece (.int word)).Writes (literal (.int word)) := by
  have digits := Numeral.is_digits_digits word.toInt.natAbs
  have nonempty := Integer.digits_ne_nil word.toInt.natAbs
  have writes := signed_writes .integer _ rfl (by simp)
    (fun after ends => Lexeme.starts_digits nonempty digits ends)
    (no_arrow_of_digits nonempty digits) (decide (word.toInt < 0))
  have same : literal (.int word) =
      (if decide (word.toInt < 0) = true then ['-'] else []) ++
        Integer.digits word.toInt.natAbs := Integer.render_parts word.toInt
  rw [same]
  exact writes

theorem float_writes (number : Binary64) : (floatPiece number).Writes (floatLiteral number) := by
  unfold floatPiece floatLiteral
  by_cases nan : number.isNaN = true
  · rw [if_pos nan, if_pos nan]
    exact leaf_writes .word rfl (by simp) fun after ends =>
      Lexeme.starts_word (by simp [Lexeme.IsLiteralWord]) ends
  rw [if_neg nan, if_neg nan]
  by_cases infinite : number.isInfinite = true
  · rw [if_pos infinite, if_pos infinite]
    have writes := signed_writes .word "inf".toList rfl (by simp)
      (fun after ends => Lexeme.starts_word (by simp [Lexeme.IsLiteralWord]) ends)
      (fun after => by simp) number.isNegative
    convert writes using 1
    cases number.isNegative <;> rfl
  · rw [if_neg infinite, if_neg infinite, NumberLayout.render_eq]
    have finite : number.magnitude < Binary64.infinityMagnitude := by
      simp only [Binary64.isNaN, Binary64.isInfinite, decide_eq_true_eq] at nan infinite
      omega
    have spells := NumberLayout.spells_unsigned floatLayout rfl rfl finite
    refine signed_writes .float _ rfl (by simp) (fun after ends => Lexeme.starts_float spells ends)
      (fun after => ?_) number.isNegative
    obtain ⟨numeral, isNumber, -, text, -⟩ := spells
    rw [← text, Numeral.text, List.append_assoc, List.append_assoc]
    exact no_arrow_of_digits isNumber.whole.1 isNumber.whole.2 _

theorem word_writes {word : List Char} (isWord : Lexeme.IsLiteralWord word) :
    (leafPiece .word word).Writes word :=
  leaf_writes .word rfl (by simp) fun _ ends => Lexeme.starts_word isWord ends

theorem str_writes {text : List Char} (noNull : '\x00' ∉ text) :
    (leafPiece .string (textLiteral text)).Writes (textLiteral text) :=
  leaf_writes .string rfl (by simp) fun _ ends => Lexeme.starts_text_literal noNull ends

theorem entry_writes {key : String} (noNull : '\x00' ∉ key.toList) {value : Piece}
    {text : List Char} (writes : value.Writes text) :
    (entryPiece key value).Writes (textLiteral key.toList ++ ':' :: ' ' :: text) := by
  intro gap blank
  have inner := writes [' '] (by simp [Lexeme.isBlank])
  have colon := writes_cons .symbol [':'] [] rfl (by simp) ⟨rfl, rfl⟩ inner
    fun after _ => Lexeme.starts_sign (.inl rfl) (by simp)
  have entry := writes_cons .string (textLiteral key.toList) gap rfl blank
    (balanced_leaf (by simp) _ gap) colon
    fun after _ => Lexeme.starts_text_literal noNull (is_end_cons.mpr (by decide))
  simpa [entryPiece] using entry

theorem comma_writes {trees : List Tree} {text : List Char} (writes : Writes trees text) :
    Writes (comma :: trees) (',' :: text) :=
  writes_cons .symbol [','] [] rfl (by simp) ⟨rfl, rfl⟩ writes
    fun after _ => Lexeme.starts_mark (by simp) (text ++ after)

theorem is_end_tail (literals : List (List Char)) {after : List Char} (ends : IsEnd after) :
    IsEnd ((literals.flatMap fun text => ',' :: ' ' :: text) ++ after) := by
  cases literals with
  | nil => exact ends
  | cons text rest => exact is_end_cons.mpr (by decide)

theorem tail_writes {pieces : List Piece} {literals : List (List Char)}
    (writes : List.Forall₂ Piece.Writes pieces literals) :
    Writes (pieces.flatMap fun piece => comma :: piece [' '])
      (literals.flatMap fun text => ',' :: ' ' :: text) := by
  induction writes with
  | nil => exact writes_nil
  | @cons piece text pieces literals first rest ih =>
      have item := comma_writes (first [' '] (by simp [Lexeme.isBlank]))
      exact writes_append item ih fun after ends => is_end_tail literals ends

theorem join_writes {pieces : List Piece} {literals : List (List Char)}
    (writes : List.Forall₂ Piece.Writes pieces literals) :
    Writes (joinPieces pieces) (Text.joinWith [',', ' '] literals) := by
  cases writes with
  | nil => exact writes_nil
  | @cons piece text pieces literals first rest =>
      rw [Text.join_with_cons]
      exact writes_append (first [] (by simp)) (tail_writes rest) fun after ends =>
        is_end_tail literals ends

theorem group_writes {bracket : Bracket} {opening closing : Char} {pieces : List Piece}
    {literals : List (List Char)} (writes : List.Forall₂ Piece.Writes pieces literals)
    (brackets : (bracket, opening, closing) = (.square, '[', ']') ∨
      (bracket, opening, closing) = (.curly, '\x7b', '\x7d') ∨
      (bracket, opening, closing) = (.round, '(', ')')) :
    (groupPiece bracket opening closing pieces).Writes (enclose opening closing literals) := by
  have inner := join_writes writes
  intro gap blank
  have opens (after : List Char) : Lexeme.Starts ⟨.symbol, [opening]⟩ after := by
    rcases brackets with same | same | same <;> cases same <;> exact Lexeme.starts_mark (by simp) after
  have closes (after : List Char) : Lexeme.Starts ⟨.symbol, [closing]⟩ after := by
    rcases brackets with same | same | same <;> cases same <;> exact Lexeme.starts_mark (by simp) after
  have ends (after : List Char) : IsEnd (closing :: after) := by
    rcases brackets with same | same | same <;> cases same <;> exact is_end_cons.mpr (by decide)
  refine ⟨?_, fun after _ => ?_, ?_⟩
  · have text := inner.text
    simp [groupPiece, Tree.allTokens, Tree.tokens, Token.tokens_text_append, Tree.tokensText, token,
      text, enclose]
  · have within := inner.run (closing :: after) (ends after)
    have closed : Token.Run [token .symbol [closing] []] after :=
      ⟨⟨by simp [token, Lexeme.IsGap], rfl, rfl, by simp [token], closes _⟩, trivial⟩
    have rest := Token.run_append.mpr ⟨within, closed⟩
    have whole : Token.Run (token .symbol [opening] gap :: (Tree.allTokens (joinPieces pieces) ++
        [token .symbol [closing] []])) after :=
      ⟨⟨fun c member => .inl (blank c member), rfl, rfl, fun _ => blank, opens _⟩, rest⟩
    simpa [groupPiece, Tree.allTokens, Tree.tokens] using whole
  · rcases brackets with same | same | same <;> cases same <;>
      exact ⟨⟨rfl, rfl, rfl, inner.balanced⟩, trivial⟩

mutual

/-- The trees of a value are written as its literal, if no text in it holds a null character. -/
theorem piece_writes {value : Value} (noNull : ∀ text ∈ texts value, '\x00' ∉ text.toList) :
    (piece value).Writes (literal value) := by
  match value with
  | null => exact word_writes (.inl rfl)
  | bool true => exact word_writes (.inr (.inl rfl))
  | bool false => exact word_writes (.inr (.inr (.inl rfl)))
  | int word => exact int_writes word
  | float number => exact float_writes number
  | str text => exact str_writes (noNull text (by simp [texts]))
  | list items => exact group_writes (item_pieces_write noNull) (.inl rfl)
  | map entries => exact group_writes (entry_pieces_write noNull) (.inr (.inl rfl))

theorem item_pieces_write {items : List Value}
    (noNull : ∀ text ∈ itemTexts items, '\x00' ∉ text.toList) :
    List.Forall₂ Piece.Writes (itemPieces items) (itemLiterals items) := by
  match items with
  | [] => exact .nil
  | item :: rest =>
      simp only [itemTexts, List.mem_append] at noNull
      exact .cons (piece_writes fun text member => noNull text (.inl member))
        (item_pieces_write fun text member => noNull text (.inr member))

theorem entry_pieces_write {entries : List (String × Value)}
    (noNull : ∀ text ∈ entryTexts entries, '\x00' ∉ text.toList) :
    List.Forall₂ Piece.Writes (entryPieces entries) (entryLiterals entries) := by
  match entries with
  | [] => exact .nil
  | (key, value) :: rest =>
      simp only [entryTexts, List.mem_cons, List.mem_append] at noNull
      exact .cons (entry_writes (noNull key (.inl rfl))
          (piece_writes fun text member => noNull text (.inr (.inl member))))
        (entry_pieces_write fun text member => noNull text (.inr (.inr member)))

end

end TaskCab.Value
