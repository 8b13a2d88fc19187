import TaskCab.Proofs.Reference.ArrayMarks
import TaskCab.Proofs.Reference.LooseEquality
import TaskCab.Proofs.Source.ReadValues
import TaskCab.Proofs.Text.Joined
import TaskCab.Proofs.Value.RoundTrip

/-!
# Defaults and the texts that they are printed as

A published default is read back as the value that was printed. A text on the side of the document is
read like a published one, so that a text which is a literal of something else, or which is not its own
trimmed and lower-cased form, is not the value that its printed form is read as.
-/

namespace TaskCab

namespace Text

theorem occurs_self (text : List Char) : occurs text text = true := by
  simpa using occurs_prefix text []

theorem lower_char_ne_nil (character : Char) : lowerChar character ≠ [] := by
  unfold lowerChar
  split
  · simp
  split
  · simp
  split <;> simp

theorem length_lower_after (before text : List Char) :
    text.length ≤ (lowerAfter before text).length := by
  induction text generalizing before with
  | nil => exact Nat.zero_le _
  | cons character rest ih =>
      have here : 1 ≤ (if character = 'Σ' then [sigma before rest] else lowerChar character).length := by
        split
        · exact Nat.le_refl 1
        · exact List.length_pos_iff.mpr (lower_char_ne_nil character)
      rw [lowerAfter, List.length_append, List.length_cons]
      have later := ih (character :: before)
      omega

theorem length_lower (text : List Char) : text.length ≤ (lower text).length :=
  length_lower_after [] text

end Text

namespace Matching

open Text Source Value

theorem length_text_literal_ge (text : List Char) : text.length ≤ (textLiteral text).length := by
  have each (quote : Char) : text.length ≤ (text.flatMap (escapeChar quote)).length := by
    induction text with
    | nil => exact Nat.zero_le _
    | cons character rest ih =>
        have here : 1 ≤ (escapeChar quote character).length := by
          unfold escapeChar
          split
          · simp
          split
          · simp
          split
          · simp
          split
          · simp
          split <;> simp
        rw [List.flatMap_cons, List.length_append, List.length_cons]
        omega
  have body := each (quoteFor text)
  simp only [textLiteral, List.length_append, List.length_cons]
  omega

/-- A text is never the name of its type around something as long as its own trimmed form. -/
theorem not_wrapped {text inner : List Char} (long : (trim text).length ≤ inner.length) :
    sameIgnoringCase text ("str".toList ++ '(' :: inner ++ [')']) = false := by
  refine Bool.eq_false_iff.mpr ?_
  intro same
  have equal := eq_of_beq same
  have length : text.length = inner.length + 5 := by
    have lengths := congrArg List.length equal
    simpa using lengths
  have first : (text.map Char.toLower).head? = some 's' := by
    rw [equal]
    rfl
  have last : (text.map Char.toLower).getLast? = some ')' := by
    rw [equal, List.map_append, List.map_singleton, List.getLast?_concat]
    rfl
  rw [List.head?_map] at first
  rw [List.getLast?_map] at last
  obtain ⟨head, atHead, lowerHead⟩ := Option.map_eq_some_iff.mp first
  obtain ⟨final, atEnd, lowerFinal⟩ := Option.map_eq_some_iff.mp last
  have notBlankHead : isBlank head = false := by
    rw [← is_blank_to_lower, lowerHead]
    rfl
  have notBlankFinal : isBlank final = false := by
    rw [← is_blank_to_lower, lowerFinal]
    rfl
  have trimmed := trim_of_ends atHead notBlankHead atEnd notBlankFinal
  rw [trimmed] at long
  omega

theorem not_typed_text {text : List Char} {own : String}
    (long : (trim text).length ≤ own.toList.length) : isTyped (.str own) text = false := by
  have quoted : (trim text).length ≤ (textLiteral own.toList).length :=
    Nat.le_trans long (length_text_literal_ge own.toList)
  have bare := not_wrapped long
  have wrapped := not_wrapped quoted
  unfold isTyped
  exact Bool.or_eq_false_iff.mpr ⟨wrapped, bare⟩

/-- A text that is no literal matches its printed form exactly if lower-casing and trimming leave it
unchanged. -/
theorem matches_lowered {text : String} :
    matchesDefault (.str (String.ofList (lower (trim text.toList)))) (.str text) = true ↔
      lower (trim text.toList) = text.toList := by
  have long : (trim text.toList).length ≤ (String.ofList (lower (trim text.toList))).toList.length := by
    rw [String.toList_ofList]
    exact length_lower _
  unfold matchesDefault
  simp only [looseEq, not_typed_text long, Bool.and_false, Bool.or_false, beq_iff_eq]
  constructor
  · intro same
    simpa using congrArg String.toList same
  · intro same
    rw [same, String.ofList_toList]

def emptyArray : List Char := "numpy.array([])".toList

def boolArray : List Char := "(boolArray=[True])".toList

theorem not_mark_of_blank {blanks marks : List Char}
    (blank : ∀ character ∈ blanks, isBlank character = true) (graphic : ∀ mark ∈ marks, IsGraphic mark) :
    ∀ character ∈ blanks, character ∉ marks := by
  intro character member isMark
  have isBlank := blank character member
  rw [not_blank_of_is_graphic (graphic character isMark)] at isBlank
  cases isBlank

theorem drop_array_marks_blank {blanks : List Char}
    (blank : ∀ character ∈ blanks, isBlank character = true) (rest : List Char) :
    dropArrayMarks 0 (blanks ++ rest) = blanks ++ dropArrayMarks 0 rest :=
  keeps_marks_run (not_mark_of_blank blank (by decide)) rest

theorem drop_constructors_blank {blanks : List Char}
    (blank : ∀ character ∈ blanks, isBlank character = true) (rest : List Char) :
    dropConstructors 0 (blanks ++ rest) = blanks ++ dropConstructors 0 rest :=
  keeps_constructors_run (not_mark_of_blank blank (by decide)) rest

theorem drop_array_marks_blanks {blanks : List Char}
    (blank : ∀ character ∈ blanks, isBlank character = true) : dropArrayMarks 0 blanks = blanks := by
  have dropped := drop_array_marks_blank blank []
  simpa [dropArrayMarks] using dropped

theorem drop_constructors_blanks {blanks : List Char}
    (blank : ∀ character ∈ blanks, isBlank character = true) : dropConstructors 0 blanks = blanks := by
  have dropped := drop_constructors_blank blank []
  simpa [dropConstructors] using dropped

theorem matches_empty_array {text : String} (named : trim text.toList = emptyArray) :
    matchesDefault (.list []) (.str text) = true := by
  obtain ⟨before, after, whole, blankBefore, blankAfter⟩ := trim_parts text.toList
  have marks : dropArrayMarks 0 (emptyArray ++ after) = dropArrayMarks 0 after := rfl
  have bare : dropConstructors 0 (dropArrayMarks 0 text.toList) = before ++ after := by
    rw [whole, named, drop_array_marks_blank blankBefore, marks, drop_array_marks_blanks blankAfter,
      drop_constructors_blank blankBefore, drop_constructors_blanks blankAfter]
  have blankText : isBlankText (before ++ after) = true := by
    rw [isBlankText, List.all_eq_true]
    intro character member
    rcases List.mem_append.mp member with inside | inside
    · exact blankBefore character inside
    · exact blankAfter character inside
  have numbers : numberArray? text.toList = some [] := by
    unfold numberArray?
    rw [bare, if_pos blankText]
  unfold matchesDefault
  simp [numbers, looseEqItems]

theorem matches_bool_array {text : String} (named : trim text.toList = boolArray) :
    matchesDefault (.list [.bool true]) (.str text) = false := by
  let core : List Char := "(boolArray=True".toList
  have framed : Framed core := framed_of_graphic (List.cons_ne_nil '(' _) (by decide)
  obtain ⟨before, after, whole, blankBefore, blankAfter⟩ := trim_parts text.toList
  have marks : dropArrayMarks 0 (boolArray ++ after) = core ++ dropArrayMarks 0 after := rfl
  have constructors : dropConstructors 0 (core ++ after) = core ++ dropConstructors 0 after := rfl
  have bare : dropConstructors 0 (dropArrayMarks 0 text.toList) = before ++ (core ++ after) := by
    rw [whole, named, drop_array_marks_blank blankBefore, marks, drop_array_marks_blanks blankAfter,
      drop_constructors_blank blankBefore, constructors, drop_constructors_blanks blankAfter]
  have notBlank : isBlankText (before ++ (core ++ after)) = false := by
    rw [isBlankText, List.all_eq_false]
    exact ⟨'(', by simp [core], by decide⟩
  have noComma : ∀ character ∈ before ++ (core ++ after), (character == ',') = false := by
    have blanks {character : Char} (blank : isBlank character = true) : (character == ',') = false := by
      rw [beq_eq_false_iff_ne]
      rintro rfl
      simp [isBlank] at blank
    intro character member
    rcases List.mem_append.mp member with inside | inside
    · exact blanks (blankBefore character inside)
    rcases List.mem_append.mp inside with inside | inside
    · exact (by decide : ∀ character ∈ core, (character == ',') = false) character inside
    · exact blanks (blankAfter character inside)
  have item : arrayItem? (before ++ (core ++ after)) = none := by
    unfold arrayItem?
    rw [trim_between framed blankBefore blankAfter]
    rfl
  have numbers : numberArray? text.toList = none := by
    unfold numberArray?
    rw [bare]
    dsimp only
    rw [notBlank, split_where_none noComma]
    simp [item]
  unfold matchesDefault
  simp [looseEq, number?, numbers]

end Matching

end TaskCab
