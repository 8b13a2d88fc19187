import TaskCab.Proofs.Value.RoundTrip

/-!
# Calls of constructors

A call of a constructor around a number has the value that the constructor makes of the number. The digits
of a number may begin with zeros here, and its point may end it.
-/

namespace TaskCab.Value

open TaskCab.Source Literal

def IsConstructor (name : List Char) : Prop :=
  name = "bool".toList ∨ name = "int".toList ∨ name = "float".toList ∨ name = "str".toList

def callPiece (name : List Char) (argument : Piece) : Piece :=
  fun gap => .leaf (token .word name gap) :: groupPiece .round '(' ')' [argument] []

theorem starts_constructor {name : List Char} (isName : IsConstructor name) (after : List Char) :
    Lexeme.Starts ⟨.word, name⟩ ('(' :: after) := by
  have stops : Text.Stops Lexeme.isWordPart ('(' :: after) := Text.stops_cons.mpr (by decide)
  rcases isName with rfl | rfl | rfl | rfl <;>
    exact Lexeme.starts_letters (fun _ => rfl) (by decide) stops

theorem call_writes {name : List Char} (isName : IsConstructor name) {argument : Piece} {text : List Char}
    (writes : argument.Writes text) :
    (callPiece name argument).Writes (name ++ '(' :: text ++ [')']) := by
  have group := group_writes (.cons writes .nil) (.inr (.inr rfl)) [] (by simp)
  have joined : enclose '(' ')' [text] = '(' :: text ++ [')'] := by
    simp [enclose, Text.joinWith, List.intercalate]
  rw [joined, List.nil_append] at group
  intro gap blank
  have call := writes_cons .word name gap rfl blank (balanced_leaf (by simp) name gap) group
    fun after _ => by
      rw [List.cons_append, List.cons_append]
      exact starts_constructor isName _
  simpa [callPiece] using call

theorem call_means (name : List Char) {argument : Piece} {meaning : Option Value}
    (means : argument.Means item? meaning) :
    (callPiece name argument).Means item? (meaning.bind (construct? name)) := by
  intro gap
  have items := items_join (.cons means .nil)
  have single : ([meaning] : List (Option Value)).mapM id = meaning.map fun value => [value] := by
    cases meaning <;> rfl
  rw [single] at items
  have noComma : hasComma (parts (joinPieces [argument])) = false := by
    have isItem := (means []).1
    rw [parts_join_pieces]
    simpa [joinItems, hasComma] using isItem.noComma
  have written : parts (callPiece name argument gap) =
      [.token (token .word name gap), .round false (meaning.map fun value => [value]) false] := by
    simp [callPiece, groupPiece, parts, part, closed, token, items, noComma]
  rw [written]
  refine ⟨⟨by simp, rfl, ?_, ?_⟩, ?_⟩
  · simp [Part.isSymbol, Token.isSymbol, token]
  · simp [Part.isSymbol, Token.isSymbol, token]
  · cases meaning <;> simp [item?, strings?, Token.isSymbol, token]

/-- What a call around a signed number is read as. -/
theorem read_call {name : List Char} (isName : IsConstructor name) (kind : LexemeKind) {text : List Char}
    (isToken : kind.isToken = true) (notSymbol : kind ≠ .symbol)
    (starts : ∀ after, IsEnd after → Lexeme.Starts ⟨kind, text⟩ after)
    (noArrow : ∀ after, Text.Stops (fun c => c = '>' || c = '=') (text ++ after)) (negative : Bool) :
    read? (name ++ '(' :: ((if negative then ['-'] else []) ++ text) ++ [')']) =
      (if negative then (item? [.token (token kind text [])]).bind negate?
        else item? [.token (token kind text [])]).bind (construct? name) := by
  have argument := signed_writes kind text isToken notSymbol starts noArrow negative
  have writes := call_writes isName argument [] (by simp)
  obtain ⟨isItem, meaning⟩ := call_means name (signed_means kind notSymbol text negative) []
  have framed : Text.Framed (name ++ '(' :: ((if negative then ['-'] else []) ++ text) ++ [')']) := by
    have closing : Text.IsGraphic ')' := by decide
    rcases isName with rfl | rfl | rfl | rfl <;> exact Text.framed_between (by decide) closing _
  rw [← meaning]
  exact read_of_writes writes framed isItem

theorem read_call_digits {name : List Char} (isName : IsConstructor name) {digits : List Char}
    (nonempty : digits ≠ []) (areDigits : Numeral.IsDigits digits) {number : Nat}
    (reads : Integer.readDigits? 10 0 digits = some number) (negative : Bool) :
    read? (name ++ '(' :: ((if negative then ['-'] else []) ++ digits) ++ [')']) =
      (if negative then ((Integer.word? number).map Value.int).bind negate?
        else (Integer.word? number).map .int).bind (construct? name) := by
  have value : item? [.token (token .integer digits [])] = (Integer.word? number).map .int := by
    have filled : digits.isEmpty = false := List.isEmpty_eq_false_iff.mpr nonempty
    have read : integer? digits = Integer.word? number := by
      rw [integer_run areDigits, Integer.readNat?, filled, if_neg (by decide), reads, Option.bind_some]
    simp [item?, token, token?, read]
  rw [← value]
  exact read_call isName .integer rfl (by decide)
    (fun after ends => Lexeme.starts_digits nonempty areDigits ends)
    (no_arrow_of_digits nonempty areDigits) negative

theorem read_call_pointed {name : List Char} (isName : IsConstructor name) {whole fraction : List Char}
    (nonempty : whole ≠ []) (areDigits : Numeral.IsDigits whole) (isFraction : Numeral.IsDigits fraction)
    (negative : Bool) :
    read? (name ++ '(' :: ((if negative then ['-'] else []) ++ (whole ++ '.' :: fraction)) ++ [')']) =
      (if negative then ((float? (whole ++ '.' :: fraction)).map Value.float).bind negate?
        else (float? (whole ++ '.' :: fraction)).map .float).bind (construct? name) := by
  have value : item? [.token (token .float (whole ++ '.' :: fraction) [])] =
      (float? (whole ++ '.' :: fraction)).map .float := by
    simp [item?, token, token?]
  rw [← value]
  apply read_call isName .float rfl (by decide)
  · exact fun after ends => Lexeme.starts_pointed nonempty areDigits isFraction ends
  · intro after
    rw [List.append_assoc]
    exact no_arrow_of_digits nonempty areDigits _

end TaskCab.Value
