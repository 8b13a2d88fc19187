import Mathlib.Data.List.TakeDrop
import Mathlib.Data.List.TakeWhile

/-!
# Runs of characters

A run of characters of one kind ends where a text stops: at its end, or at a character of another kind.
-/

namespace TaskCab.Text

/-- Whether a run of characters that `belongs` holds of cannot go on into a text. -/
def Stops (belongs : Char → Bool) (text : List Char) : Prop :=
  ∀ character ∈ text.head?, belongs character = false

variable {belongs : Char → Bool}

@[simp]
theorem stops_nil : Stops belongs [] := by simp [Stops]

@[simp]
theorem stops_cons {character : Char} {rest : List Char} :
    Stops belongs (character :: rest) ↔ belongs character = false := by simp [Stops]

theorem take_while_run {run rest : List Char} (all : ∀ character ∈ run, belongs character = true)
    (stops : Stops belongs rest) : (run ++ rest).takeWhile belongs = run := by
  rw [List.takeWhile_append_of_pos all]
  cases rest with
  | nil => simp
  | cons character rest => simp [stops_cons.mp stops]

theorem drop_while_run {run rest : List Char} (all : ∀ character ∈ run, belongs character = true)
    (stops : Stops belongs rest) : (run ++ rest).dropWhile belongs = rest := by
  rw [List.dropWhile_append_of_pos all]
  cases rest with
  | nil => simp
  | cons character rest => simp [stops_cons.mp stops]

theorem drop_while_stops {text : List Char} (stops : Stops belongs text) :
    text.dropWhile belongs = text := drop_while_run (List.forall_mem_nil _) stops

theorem stops_drop_while (belongs : Char → Bool) (text : List Char) :
    Stops belongs (text.dropWhile belongs) := by
  have stop := List.head?_dropWhile_not belongs text
  intro character isHead
  rw [isHead] at stop
  simpa using stop

theorem drop_take_while (belongs : Char → Bool) (text : List Char) :
    text.drop (text.takeWhile belongs).length = text.dropWhile belongs := by
  have cut := List.prefix_iff_eq_append.mp (@List.takeWhile_prefix _ text belongs)
  apply List.append_cancel_left
  rw [cut, List.takeWhile_append_dropWhile]

theorem span_run {run rest : List Char} (all : ∀ character ∈ run, belongs character = true)
    (stops : Stops belongs rest) : (run ++ rest).span belongs = (run, rest) := by
  rw [List.span_eq_takeWhile_dropWhile, take_while_run all stops, drop_while_run all stops]

/-- A run ends in front of a mark that does not belong to it. -/
theorem length_take_while_le {mark : Char} (other : belongs mark = false) (front rest : List Char) :
    ((front ++ mark :: rest).takeWhile belongs).length ≤ front.length := by
  rw [List.takeWhile_append]
  split
  · simp [other]
  · exact (List.takeWhile_prefix belongs).length_le

end TaskCab.Text
