import TaskCab.Proofs.Text.Joined
import TaskCab.Reference.Matching

/-!
# Taking marks out of texts

The reader of published arrays takes out their brackets and the openings of number constructors, from
left to right. What it makes of a piece without such marks is the piece, whatever comes behind it.
-/

namespace TaskCab.Matching

open Text

/-- Whether something that takes marks out of a text makes `kept` of `piece`, whatever comes behind it. -/
def Keeps (drop : List Char → List Char) (piece kept : List Char) : Prop :=
  ∀ rest, drop (piece ++ rest) = kept ++ drop rest

section

variable {drop : List Char → List Char}

theorem keeps_append {first second keptFirst keptSecond : List Char}
    (keepsFirst : Keeps drop first keptFirst) (keepsSecond : Keeps drop second keptSecond) :
    Keeps drop (first ++ second) (keptFirst ++ keptSecond) := by
  intro rest
  rw [List.append_assoc, keepsFirst, keepsSecond, List.append_assoc]

theorem keeps_join {Item : Type} {separator : List Char} (keepsSeparator : Keeps drop separator separator)
    {piece kept : Item → List Char} (each : ∀ item, Keeps drop (piece item) (kept item)) (items : List Item) :
    Keeps drop (joinWith separator (items.map piece)) (joinWith separator (items.map kept)) := by
  induction items with
  | nil => exact fun rest => rfl
  | cons item rest ih =>
      cases rest with
      | nil => simpa [join_with_cons] using each item
      | cons next more =>
          simp only [List.map_cons, join_with_cons_cons] at ih ⊢
          exact keeps_append (keeps_append (each item) keepsSeparator) ih

end

theorem keeps_marks_run {run : List Char} (plain : ∀ character ∈ run, character ∉ "n)[]".toList) :
    Keeps (dropArrayMarks 0) run run := by
  intro rest
  induction run with
  | nil => rfl
  | cons character more ih =>
      have differs {mark : Char} (isMark : mark ∈ "n)[]".toList) : character ≠ mark := by
        rintro rfl
        exact plain character (.head _) isMark
      have noPrefix : "numpy.array(".toList.isPrefixOf (character :: (more ++ rest)) = false := by
        simp [List.isPrefixOf, (@differs 'n' (by decide)).symm]
      have later := ih fun other member => plain other (.tail _ member)
      simp only [List.cons_append, dropArrayMarks, noPrefix, @differs ')' (by decide),
        @differs '[' (by decide), @differs ']' (by decide), later, decide_false, Bool.or_false,
        Bool.false_eq_true, if_false]

theorem keeps_constructors_run {run : List Char} (plain : ∀ character ∈ run, character ∉ "if".toList) :
    Keeps (dropConstructors 0) run run := by
  intro rest
  induction run with
  | nil => rfl
  | cons character more ih =>
      have differs {letter : Char} (isLetter : letter ∈ "if".toList) : character ≠ letter := by
        rintro rfl
        exact plain character (.head _) isLetter
      have noInt : "int(".toList.isPrefixOf (character :: (more ++ rest)) = false := by
        simp [List.isPrefixOf, (@differs 'i' (by decide)).symm]
      have noFloat : "float(".toList.isPrefixOf (character :: (more ++ rest)) = false := by
        simp [List.isPrefixOf, (@differs 'f' (by decide)).symm]
      have later := ih fun other member => plain other (.tail _ member)
      simp only [List.cons_append, dropConstructors, noInt, noFloat, later, Bool.false_eq_true, if_false]

end TaskCab.Matching
