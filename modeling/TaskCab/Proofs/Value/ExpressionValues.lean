import TaskCab.Proofs.Source.IntegerExpressions
import TaskCab.Proofs.Source.PlainParts
import TaskCab.Proofs.Value.RoundTrip

/-!
# What expressions of integers are read as

The value of an expression is made from the inside out: a sign takes it up or negates it, round brackets keep
it unless a joined line counts at an edge inside them, and a call of `int` turns it into an integer.
-/

namespace TaskCab.Source

open TaskCab.Text Literal

/-- The value of a single item, unless a line is joined in front of it. -/
theorem items_single {parts : List Part} (nonempty : parts ≠ [])
    (noComma : ∀ part ∈ parts, Part.isSymbol "," part = false) :
    items? parts = if Part.startsJoined parts then none else (item? parts).map fun value => [value] := by
  have pieces : Part.pieces parts = [parts] := by
    have filled : parts.isEmpty = false := List.isEmpty_eq_false_iff.mpr nonempty
    simp [Part.pieces, Value.cut_last noComma, filled]
  have unjoined : Part.unjoined parts = !Part.startsJoined parts := by
    have noCommaJoined : (parts.any fun part => Part.isSymbol "," part && Part.joined part) = false := by
      rw [List.any_eq_false]
      intro part member
      simp [noComma part member]
    simp [Part.unjoined, pieces, noCommaJoined]
  rw [items?, unjoined, pieces]
  cases Part.startsJoined parts with
  | true => rfl
  | false => cases found : item? parts <;> simp [found]

/-- A sign in front of an expression. -/
theorem item_sign {sign : Token} (negative : Bool)
    (isSign : sign.kind = .symbol ∧ sign.text = [signSymbol negative]) {rest : List Part}
    (nonempty : rest ≠ []) :
    item? (.token sign :: rest) = (item? rest).bind (if negative then negate? else affirm?) := by
  obtain ⟨gap, joined, kind, text⟩ := sign
  obtain ⟨rfl, rfl⟩ : kind = .symbol ∧ text = [signSymbol negative] := isSign
  by_cases argument : IsArgument rest
  · obtain ⟨joined, value, isTuple, rfl⟩ := argument
    cases negative <;> simp [item?, Token.isSymbol, signSymbol]
  · rw [item_token _ nonempty argument]
    cases negative <;> simp [Token.isSymbol, signSymbol]

theorem item_call {name : Token} (isWord : name.kind = .word) (joined : Bool) (argument : Option Value) :
    item? [.token name, .round joined (argument.map fun value => [value]) false] =
      argument.bind (construct? name.text) := by
  cases argument <;> simp [item?, strings?, Token.isSymbol, isWord]

/-! ## Values -/

def held (joined : Bool) (value : Option Value) : Option Value := if joined then none else value

def Operand.value? : Operand → Option Value
  | integer token => (Integer.word? token.number).map .int
  | float token => some (.float token.value)
  | truth holds => some (.bool holds)
  | digits string => some (.str (String.ofList string.body))

namespace Expression

def firstKind : Expression → LexemeKind
  | operand single => single.kind
  | signed .. | round .. => .symbol
  | int .. => .word

/-- Whether a joined line counts at an edge inside round brackets. -/
def joinedInside (opening : List Space) (inner : Expression) (closing : List Space) : Bool :=
  joinsBefore inner.firstKind opening || closing.any Space.joins

def value? : Expression → Option Value
  | operand single => single.value?
  | signed negative _ inner => inner.value?.bind (if negative then negate? else affirm?)
  | round opening inner closing => held (joinedInside opening inner closing) inner.value?
  | int _ opening inner closing => (held (joinedInside opening inner closing) inner.value?).bind toInt?

theorem item_operand {single : Operand} (proper : single.IsProper) (gap : List Space) :
    item? [.token (tokenBehind gap ⟨single.kind, single.text⟩)] = single.value? := by
  unfold tokenBehind Operand.value?
  cases single with
  | integer token => simp [item?, token?, Operand.kind, Operand.text, IntegerToken.integer_text proper]
  | float token => simp [item?, token?, Operand.kind, Operand.text, FloatToken.float_text proper]
  | truth holds => cases holds <;> simp [item?, token?, Operand.kind, Operand.text]
  | digits string =>
      simp [item?, strings?, Part.startsJoined, Operand.kind, Operand.text, DigitString.text_text proper]

theorem parts_trees_ne_nil (gap : List Space) (expression : Expression) :
    parts (expression.trees gap) ≠ [] := by
  cases expression <;> simp [trees, parts]

/-- Neither commas nor semicolons stand among the parts of an expression. -/
theorem no_separator (gap : List Space) (expression : Expression) :
    ∀ part ∈ parts (expression.trees gap),
      Part.isSymbol "," part = false ∧ Part.isSymbol ";" part = false := by
  induction expression generalizing gap with
  | operand single =>
      have notSymbol : single.kind ≠ .symbol := by cases single <;> simp [Operand.kind]
      simp [trees, parts, part, Part.isSymbol, Token.isSymbol, tokenBehind, notSymbol]
  | signed negative behind inner ih =>
      rw [trees, parts, List.forall_mem_cons]
      constructor
      · cases negative <;> exact ⟨rfl, rfl⟩
      · exact ih behind
  | round opening inner closing ih => simp [trees, roundTree, parts, part, Part.isSymbol]
  | int behind opening inner closing ih =>
      simp [trees, roundTree, parts, part, Part.isSymbol, Token.isSymbol, tokenBehind]

theorem starts_joined (gap : List Space) (expression : Expression) :
    Part.startsJoined (parts (expression.trees gap)) = joinsBefore expression.firstKind gap := by
  cases expression <;>
    simp [trees, roundTree, parts, part, Part.startsJoined, Part.joined, tokenBehind, firstKind, symbol]

/-- Round brackets around an expression hold its value. -/
theorem part_round (gap : List Space) {opening closing : List Space} {inner : Expression}
    (meaning : item? (parts (inner.trees opening)) = inner.value?) :
    part (roundTree gap (inner.trees opening) closing) =
      .round (gap.any Space.joins)
        ((held (joinedInside opening inner closing) inner.value?).map fun value => [value]) false := by
  have noComma : ∀ part ∈ parts (inner.trees opening), Part.isSymbol "," part = false :=
    fun part member => (no_separator opening inner part member).1
  have single : hasComma (parts (inner.trees opening)) = false := by
    simpa [hasComma] using noComma
  have items := items_single (parts_trees_ne_nil opening inner) noComma
  rw [starts_joined, meaning] at items
  have joined : (tokenBehind closing (symbol ')')).joined = closing.any Space.joins := rfl
  rw [roundTree, part, single, items, closed, joined, held, joinedInside]
  cases joinsBefore inner.firstKind opening <;> cases closing.any Space.joins <;> rfl

/-- The trees of an expression have its value. -/
theorem item_trees {expression : Expression} {inside : Bool} (fits : expression.Fits inside)
    (gap : List Space) : item? (parts (expression.trees gap)) = expression.value? := by
  induction expression generalizing inside gap with
  | operand single => exact item_operand fits gap
  | signed negative behind inner ih =>
      have isSign : (tokenBehind gap (symbol (signSymbol negative))).kind = .symbol ∧
          (tokenBehind gap (symbol (signSymbol negative))).text = [signSymbol negative] := ⟨rfl, rfl⟩
      rw [trees, parts, part, item_sign negative isSign (parts_trees_ne_nil behind inner), ih fits.2]
      rfl
  | round opening inner closing ih =>
      rw [trees, parts, parts, part_round gap (ih fits.2.1 opening)]
      cases same : held (joinedInside opening inner closing) inner.value? <;>
        simp [item?, ofRound, value?, same]
  | int behind opening inner closing ih =>
      rw [trees, parts, parts, parts, part, part_round behind (ih fits.2.2.1 opening)]
      have isInt (argument : Value) : construct? "int".toList argument = toInt? argument := rfl
      exact item_call rfl _ _

/-- An expression that is a whole text is read as its value. -/
theorem read_expression {expression : Expression} (fits : expression.Fits false) {before after : List Char}
    (blankBefore : ∀ character ∈ before, isBlank character = true)
    (blankAfter : ∀ character ∈ after, isBlank character = true) :
    read? (before ++ (expression.text ++ after)) = expression.value? := by
  have framed : Framed expression.text := by
    obtain ⟨⟨first, isFirst, graphic, -⟩, ends⟩ := edged fits
    exact ⟨⟨first, isFirst, graphic⟩, ends⟩
  have isItem : Value.IsItem (parts (expression.trees [])) := by
    constructor
    · exact parts_trees_ne_nil [] expression
    · rw [starts_joined, joins_before_nil]
    · exact fun part member => (no_separator [] expression part member).1
    · exact fun part member => (no_separator [] expression part member).2
  rw [read?, trim_between framed blankBefore blankAfter, Line.of_text_expression fits]
  simp [Line.ofTrees, Tree.of_tokens_all_tokens (expression.balanced []), Value.line_value_of_item isItem,
    item_trees fits]

end Expression

end TaskCab.Source
