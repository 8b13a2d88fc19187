import TaskCab.Proofs.Value.NumberText
import TaskCab.Proofs.Value.Reading

/-!
# Decoding undoes writing

A value whose texts hold no null character is decoded from its literal, exactly if it holds neither the
least word nor a float that is not finite. Otherwise the literal is kept as a text.
-/

namespace TaskCab.Value

open TaskCab.Source Literal Text

theorem framed_of_number_text {text : List Char} (isNumberText : IsNumberText text) :
    Framed text := framed_of_graphic isNumberText.1 (graphic_of_number_text isNumberText)

theorem framed_literal (value : Value) : Framed (literal value) := by
  match value with
  | null => exact framed_of_graphic (List.cons_ne_nil 'N' "one".toList) (by decide)
  | bool true => exact framed_of_graphic (List.cons_ne_nil 'T' "rue".toList) (by decide)
  | bool false => exact framed_of_graphic (List.cons_ne_nil 'F' "alse".toList) (by decide)
  | int word => exact framed_of_number_text (int_is_number_text word.toInt)
  | float number => exact framed_of_number_text (float_is_number_text number)
  | str text =>
      have graphic : IsGraphic (quoteFor text.toList) := by
        rcases Quoted.is_quote_quote_for text.toList with same | same <;> rw [same] <;>
          exact ⟨by decide, by decide⟩
      exact framed_between graphic graphic _
  | list items => exact framed_between ⟨by decide, by decide⟩ ⟨by decide, by decide⟩ _
  | map entries => exact framed_between ⟨by decide, by decide⟩ ⟨by decide, by decide⟩ _

theorem line_value_of_item {parts : List Part} (isItem : IsItem parts) : lineValue? parts = item? parts := by
  have noSemicolon : dropSemicolon parts = parts := by
    unfold dropSemicolon
    split
    next last found => simp [isItem.noSemicolon last (List.mem_of_getLast? found)]
    next => rfl
  have noComma : hasComma parts = false := by
    simpa [hasComma] using isItem.noComma
  simp [lineValue?, noSemicolon, noComma, isItem.unjoined]

/-- A text without a blank at its ends is read as the trees that it is written as. -/
theorem read_of_writes {trees : List Tree} {text : List Char} (writes : Writes trees text)
    (framed : Framed text) (isItem : IsItem (parts trees)) : read? text = item? (parts trees) := by
  obtain ⟨⟨first, atHead, graphic⟩, -⟩ := id framed
  have nonempty : Tree.allTokens trees ≠ [] := by
    intro empty
    have written := writes.text
    rw [empty] at written
    simp [← written, Tree.tokensText] at atHead
  obtain ⟨token, rest, tokens⟩ := List.exists_cons_of_ne_nil nonempty
  have noMark : (Tree.tokensText (Tree.allTokens trees)).head? ≠ some '\ufeff' := by
    rw [writes.text, Option.mem_def.mp atHead]
    intro same
    obtain rfl := Option.some.inj same
    exact absurd graphic.2 (by decide)
  have line : Line.ofText text = [⟨Line.indentOf token.gap, Tree.allTokens trees⟩] := by
    have run := writes.run [] is_end_nil
    rw [← writes.text]
    rw [tokens] at run noMark ⊢
    exact Line.of_text_run run noMark
  rw [read?, trim_of_framed framed, line]
  simp [Tree.of_tokens_all_tokens writes.balanced, line_value_of_item isItem]

/-- What reading a literal gives. -/
theorem read_literal {value : Value} (distinct : Distinct value)
    (noNull : ∀ text ∈ texts value, '\x00' ∉ text.toList) :
    read? (literal value) = if readable value then some value else none := by
  obtain ⟨isItem, meaning⟩ := piece_means distinct []
  have writes : Writes (piece value []) (literal value) := piece_writes noNull [] (by simp)
  rw [read_of_writes writes (framed_literal value) isItem, meaning]

theorem readable_iff (value : Value) :
    readable value = true ↔
      .int Int64.minValue ∉ scalars value ∧
        ∀ number, .float number ∈ scalars value → number.isFinite = true := by
  rw [readable, List.all_eq_true]
  constructor
  · intro all
    exact ⟨fun member => by simpa [isReadable] using all _ member,
      fun number member => by simpa [isReadable] using all _ member⟩
  · rintro ⟨noLeast, finite⟩ scalar member
    cases scalar with
    | int word =>
        rw [isReadable, bne_iff_ne]
        rintro rfl
        exact noLeast member
    | float number => exact finite number member
    | null | bool | str | list | map => rfl

/-- Decoding the literal of a value gives the value back exactly if it holds neither the least word nor
a float that is not finite; otherwise the literal is kept as a text. -/
theorem decode_literal_iff (value : Value) (distinct : Distinct value)
    (noNull : ∀ text ∈ texts value, '\x00' ∉ text.toList) :
    (decode (literal value) = .decoded value ↔
      .int Int64.minValue ∉ scalars value ∧
        ∀ number, .float number ∈ scalars value → number.isFinite = true) ∧
    (¬(.int Int64.minValue ∉ scalars value ∧
        ∀ number, .float number ∈ scalars value → number.isFinite = true) →
      ∃ text, decode (literal value) = .verbatim text) := by
  have read := read_literal distinct noNull
  rw [← readable_iff, decode, read]
  cases readable value with
  | true => simp
  | false => simp

theorem decode_literal_iff_nested :
    decode (literal (.map [("it's", .list [.int (-3), .str "a\nb", .list []]), ("", .map [])])) =
      .decoded (.map [("it's", .list [.int (-3), .str "a\nb", .list []]), ("", .map [])]) :=
  (decode_literal_iff (.map [("it's", .list [.int (-3), .str "a\nb", .list []]), ("", .map [])])
    (by simp [Distinct, Entries.Distinct, Entries.keys, EntriesDistinct, AllDistinct])
    (by simp [texts, itemTexts, entryTexts])).1.mpr
      (by simp [scalars, itemScalars, entryScalars])

end TaskCab.Value
