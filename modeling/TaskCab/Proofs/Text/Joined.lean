import TaskCab.Text.Search

/-!
# Joined text

Pieces with a separator between them, and texts with a known start.
-/

namespace TaskCab.Text

theorem join_with_cons_cons (separator piece next : List Char) (rest : List (List Char)) :
    joinWith separator (piece :: next :: rest) =
      piece ++ separator ++ joinWith separator (next :: rest) := by
  simp [joinWith, List.intercalate]

theorem join_with_cons (separator text : List Char) (rest : List (List Char)) :
    joinWith separator (text :: rest) = text ++ rest.flatMap (separator ++ ·) := by
  induction rest generalizing text with
  | nil => simp [joinWith, List.intercalate]
  | cons next rest ih =>
      rw [join_with_cons_cons, ih]
      simp

theorem mem_join_with {separator : List Char} {pieces : List (List Char)} {character : Char}
    (member : character ∈ joinWith separator pieces) :
    character ∈ separator ∨ ∃ piece ∈ pieces, character ∈ piece := by
  cases pieces with
  | nil => simp [joinWith, List.intercalate] at member
  | cons first rest =>
      rw [join_with_cons, List.mem_append, List.mem_flatMap] at member
      rcases member with inFirst | ⟨piece, inRest, inPiece⟩
      · exact .inr ⟨first, .head _, inFirst⟩
      · rcases List.mem_append.mp inPiece with inSeparator | inPiece
        · exact .inl inSeparator
        · exact .inr ⟨piece, .tail _ inRest, inPiece⟩

theorem after_start_iff (start text rest : List Char) :
    afterStart? start text = some rest ↔ text = start ++ rest := by
  induction start generalizing text with
  | nil => simp [afterStart?]
  | cons character start ih =>
      cases text with
      | nil => simp [afterStart?]
      | cons other text =>
          rw [afterStart?]
          by_cases same : character = other
          · rw [if_pos same, ih, same]
            simp
          · simp [same, Ne.symm same]

/-- A search finds a part exactly where it stands within the text. -/
theorem occurs_iff_within (part text : List Char) : occurs part text = true ↔ part <:+: text := by
  induction text with
  | nil => simp [occurs]
  | cons character rest ih =>
      rw [occurs, Bool.or_eq_true, List.isPrefixOf_iff_prefix, ih, List.infix_cons_iff]

theorem occurs_prefix (part rest : List Char) : occurs part (part ++ rest) = true :=
  (occurs_iff_within part (part ++ rest)).mpr (List.prefix_append part rest).isInfix

theorem split_where_ne_nil (separates : Char → Bool) (text : List Char) :
    splitWhere separates text ≠ [] := by
  cases text with
  | nil => exact List.cons_ne_nil _ _
  | cons character rest =>
      rw [splitWhere]
      split
      · exact List.cons_ne_nil _ _
      · split <;> exact List.cons_ne_nil _ _

theorem split_where_none {separates : Char → Bool} {text : List Char}
    (none : ∀ character ∈ text, separates character = false) : splitWhere separates text = [text] := by
  induction text with
  | nil => rfl
  | cons character rest ih =>
      have later := ih fun other member => none other (.tail _ member)
      simp [splitWhere, none character (.head _), later]

theorem split_where_first {separates : Char → Bool} {piece : List Char}
    (none : ∀ character ∈ piece, separates character = false) {separator : Char}
    (isSeparator : separates separator = true) (rest : List Char) :
    splitWhere separates (piece ++ separator :: rest) = piece :: splitWhere separates rest := by
  induction piece with
  | nil => simp [splitWhere, isSeparator]
  | cons character piece ih =>
      have later := ih fun other member => none other (.tail _ member)
      simp [splitWhere, none character (.head _), later]

end TaskCab.Text
