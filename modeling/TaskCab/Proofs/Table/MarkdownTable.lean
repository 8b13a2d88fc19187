import Mathlib.Data.List.Basic
import TaskCab.Proofs.Text.LineEnds

/-!
# Tables in Markdown

A line of a table has its cells between bars. A bar behind a backslash is no separator: it belongs to a cell,
which holds it without the backslash. Lines end in a line feed, in a carriage return or in both.

Lines and cells alike are pieces of a text that a separator was put between. Such a text is cut into the
pieces of each part, unless the separator takes up the end of the part in front of it.
-/

namespace TaskCab.Markdown

open TaskCab.Text

/-- The texts between the ends of lines. -/
def cutLines : List Char → List (List Char)
  | [] => [[]]
  | '\r' :: '\n' :: rest => [] :: cutLines rest
  | character :: rest =>
      if character = '\n' ∨ character = '\r' then [] :: cutLines rest
      else (cutLines rest).modifyHead (character :: ·)

/-- The texts between the separators of a line. -/
def cutCells : List Char → List (List Char)
  | [] => [[]]
  | '\\' :: '|' :: rest => (cutCells rest).modifyHead ('|' :: ·)
  | character :: rest =>
      if character = '|' then [] :: cutCells rest else (cutCells rest).modifyHead (character :: ·)

/-- The trimmed cells of a line that begins and ends with a separator. -/
def cells? (line : List Char) : Option (List (List Char)) :=
  match cutCells line with
  | [] :: pieces => if pieces.getLast? = some [] then some (pieces.dropLast.map trim) else none
  | _ => none

/-- Whether the cells of a line are some texts, but for blanks around them. -/
def ReadsAs (line : List Char) (cells : List String) : Prop :=
  cells? line = some (cells.map fun cell => trim cell.toList)

/-- Whether a line has a number of cells, all of hyphens. -/
def IsRule (count : Nat) (line : List Char) : Prop :=
  ∃ cells, cells? line = some cells ∧ cells.length = count ∧
    ∀ cell ∈ cells, cell ≠ [] ∧ ∀ character ∈ cell, character = '-'

/-- Whether a text is a table with some headers and some rows. -/
structure IsTable (headers : List String) (rows : List (List String)) (text : List Char) : Prop where
  layout : ∃ header rule body, cutLines text = header :: rule :: body ∧ ReadsAs header headers ∧
    IsRule headers.length rule ∧ List.Forall₂ ReadsAs body rows
  aligned : ∀ first ∈ cutLines text, ∀ second ∈ cutLines text, first.length = second.length
  rectangular : ∀ row ∈ rows, row.length = headers.length

def barred (pieces : List (List Char)) : List Char := '|' :: joinWith ['|'] pieces ++ ['|']

variable {piece : List Char} {pieces : List (List Char)} {text : List Char}

/-! ## Pieces with separators between them -/

/-- A function that cuts a text at a separator cuts joined pieces one by one. The separator must not take
up the character in front of it. -/
theorem split_join {split : List Char → List (List Char)} {separator carrier : Char}
    (splits : ∀ {piece : List Char}, piece.getLast? ≠ some carrier → ∀ rest,
      split (piece ++ separator :: rest) = split piece ++ split rest)
    (nonempty : pieces ≠ []) (free : ∀ piece ∈ pieces, piece.getLast? ≠ some carrier) :
    split (joinWith [separator] pieces) = pieces.flatMap split := by
  induction pieces with
  | nil => exact absurd rfl nonempty
  | cons first rest ih =>
      obtain ⟨freeFirst, freeRest⟩ := List.forall_mem_cons.mp free
      cases rest with
      | nil => simp [joinWith, List.intercalate]
      | cons next more =>
          rw [join_with_cons_cons, List.append_assoc, List.singleton_append, splits freeFirst,
            ih (List.cons_ne_nil _ _) freeRest]
          exact List.flatMap_cons.symm

theorem last_of_tail {character carrier : Char} {rest : List Char}
    (free : (character :: rest).getLast? ≠ some carrier) : rest.getLast? ≠ some carrier := by
  cases rest with
  | nil => simp
  | cons next more => rwa [List.getLast?_cons_cons] at free

theorem modify_head_append {change : List Char → List Char} {others : List (List Char)}
    (nonempty : pieces ≠ []) :
    pieces.modifyHead change ++ others = (pieces ++ others).modifyHead change := by
  cases pieces with
  | nil => exact absurd rfl nonempty
  | cons first rest => rfl

theorem length_le_flat_map {split : List Char → List (List Char)} (nonempty : ∀ piece, split piece ≠ [])
    (pieces : List (List Char)) : pieces.length ≤ (pieces.flatMap split).length := by
  induction pieces with
  | nil => simp
  | cons first rest ih =>
      have positive := List.length_pos_iff.mpr (nonempty first)
      rw [List.flatMap_cons, List.length_append, List.length_cons]
      omega

theorem one_of_each {split : List Char → List (List Char)} (nonempty : ∀ piece, split piece ≠ [])
    (count : (pieces.flatMap split).length = pieces.length) :
    ∀ piece ∈ pieces, (split piece).length = 1 := by
  induction pieces with
  | nil => simp
  | cons first rest ih =>
      have positive := List.length_pos_iff.mpr (nonempty first)
      have enough := length_le_flat_map nonempty rest
      rw [List.flatMap_cons, List.length_append, List.length_cons] at count
      exact List.forall_mem_cons.mpr ⟨by omega, ih (by omega)⟩

theorem flat_map_of_whole {split : List Char → List (List Char)}
    (whole : ∀ piece ∈ pieces, split piece = [piece]) : pieces.flatMap split = pieces := by
  induction pieces with
  | nil => rfl
  | cons first rest ih =>
      obtain ⟨wholeFirst, wholeRest⟩ := List.forall_mem_cons.mp whole
      rw [List.flatMap_cons, wholeFirst, ih wholeRest]
      rfl

/-! ## Lines -/

theorem cut_lines_ne_nil (text : List Char) : cutLines text ≠ [] := by
  induction text using cutLines.induct with
  | case1 => exact List.cons_ne_nil _ _
  | case2 rest ih => exact List.cons_ne_nil _ _
  | case3 character rest notPair isEnd ih =>
      rw [cutLines, if_pos isEnd]
      · exact List.cons_ne_nil _ _
      · exact notPair
  | case4 character rest notPair notEnd ih =>
      rw [cutLines, if_neg notEnd]
      · simpa using ih
      · exact notPair

theorem cut_lines_append {piece : List Char} (free : piece.getLast? ≠ some '\r') (rest : List Char) :
    cutLines (piece ++ '\n' :: rest) = cutLines piece ++ cutLines rest := by
  induction piece using cutLines.induct with
  | case1 => simp [cutLines]
  | case2 later ih =>
      have freeLater := last_of_tail (last_of_tail free)
      simp [cutLines, ih freeLater]
  | case3 character later notPair isEnd ih =>
      -- A carriage return at the very end would take the line feed behind the piece with it.
      have stillNoPair : ∀ more, character = '\r' → later ++ '\n' :: rest = '\n' :: more → False := by
        rintro more rfl same
        cases later with
        | nil => simp at free
        | cons next others =>
            obtain ⟨rfl, -⟩ := List.cons.inj same
            exact notPair others rfl rfl
      rw [List.cons_append, cutLines, if_pos isEnd, ih (last_of_tail free), cutLines, if_pos isEnd]
      · rfl
      · exact notPair
      · exact stillNoPair
  | case4 character later notPair notEnd ih =>
      rw [List.cons_append, cutLines, if_neg notEnd, ih (last_of_tail free), cutLines, if_neg notEnd,
        modify_head_append (cut_lines_ne_nil later)]
      · exact notPair
      · rintro more rfl
        exact absurd (.inr rfl) notEnd

theorem cut_lines_join (nonempty : pieces ≠ []) (free : ∀ piece ∈ pieces, piece.getLast? ≠ some '\r') :
    cutLines (joinWith ['\n'] pieces) = pieces.flatMap cutLines :=
  split_join cut_lines_append nonempty free

theorem on_line_iff (text : List Char) :
    OnLine text ↔ ∀ character ∈ text, ¬(character = '\n' ∨ character = '\r') := by
  simp only [OnLine, not_or, imp_and, forall_and, List.forall_mem_ne']

/-- A text is one line exactly if it has no part of a line end. -/
theorem cut_lines_length_eq_one_iff (text : List Char) : (cutLines text).length = 1 ↔ OnLine text := by
  rw [on_line_iff]
  induction text using cutLines.induct with
  | case1 => simp [cutLines]
  | case2 rest ih => simp [cutLines, cut_lines_ne_nil]
  | case3 character rest notPair isEnd ih =>
      rw [cutLines, if_pos isEnd]
      · constructor
        · intro one
          simp [cut_lines_ne_nil] at one
        · intro onLine
          exact absurd isEnd (onLine character (.head _))
      · exact notPair
  | case4 character rest notPair notEnd ih =>
      rw [cutLines, if_neg notEnd, List.length_modifyHead, ih, List.forall_mem_cons]
      · exact (and_iff_right notEnd).symm
      · exact notPair

theorem cut_lines_of_length_one (one : (cutLines text).length = 1) : cutLines text = [text] := by
  rw [cut_lines_length_eq_one_iff, on_line_iff] at one
  induction text with
  | nil => rfl
  | cons character rest ih =>
      obtain ⟨notEnd, later⟩ := List.forall_mem_cons.mp one
      rw [cutLines, if_neg notEnd, ih later]
      · rfl
      · rintro more rfl
        exact absurd (.inr rfl) notEnd

/-! ## Cells -/

theorem cut_cells_ne_nil (text : List Char) : cutCells text ≠ [] := by
  induction text using cutCells.induct with
  | case1 => exact List.cons_ne_nil _ _
  | case2 rest ih => simpa [cutCells] using ih
  | case3 rest notPair ih =>
      rw [cutCells, if_pos rfl]
      · exact List.cons_ne_nil _ _
      · exact notPair
  | case4 character rest notPair notBar ih =>
      rw [cutCells, if_neg notBar]
      · simpa using ih
      · exact notPair

theorem cut_cells_append {piece : List Char} (free : piece.getLast? ≠ some '\\') (rest : List Char) :
    cutCells (piece ++ '|' :: rest) = cutCells piece ++ cutCells rest := by
  induction piece using cutCells.induct with
  | case1 => simp [cutCells]
  | case2 later ih =>
      rw [List.cons_append, List.cons_append, cutCells, ih (last_of_tail (last_of_tail free)), cutCells,
        modify_head_append (cut_cells_ne_nil later)]
  | case3 later notPair ih =>
      rw [List.cons_append, cutCells, if_pos rfl, ih (last_of_tail free), cutCells, if_pos rfl]
      · rfl
      · exact notPair
      · rintro more impossible
        cases impossible
  | case4 character later notPair notBar ih =>
      have stillNoPair : ∀ more, character = '\\' → later ++ '|' :: rest = '|' :: more → False := by
        rintro more rfl same
        cases later with
        | nil => simp at free
        | cons next others =>
            obtain ⟨rfl, -⟩ := List.cons.inj same
            exact notPair others rfl rfl
      rw [List.cons_append, cutCells, if_neg notBar, ih (last_of_tail free), cutCells, if_neg notBar,
        modify_head_append (cut_cells_ne_nil later)]
      · exact notPair
      · exact stillNoPair

theorem cut_cells_of_no_bar (noBar : '|' ∉ text) : cutCells text = [text] := by
  induction text with
  | nil => rfl
  | cons character rest ih =>
      rw [List.mem_cons, not_or] at noBar
      rw [cutCells, if_neg (Ne.symm noBar.1), ih noBar.2]
      · rfl
      · rintro more - rfl
        exact noBar.2 (.head _)

def solid (text : List Char) : Nat := text.countP fun character => !isBlank character

theorem solid_append (text rest : List Char) : solid (text ++ rest) = solid text + solid rest :=
  List.countP_append

theorem solid_cons_of_not_blank {character : Char} (notBlank : isBlank character = false)
    (rest : List Char) : solid (character :: rest) = solid rest + 1 :=
  List.countP_cons_of_pos (by simp [notBlank])

theorem solid_of_blank (blank : ∀ character ∈ text, isBlank character = true) : solid text = 0 :=
  List.countP_eq_zero.mpr fun character member => by simp [blank character member]

theorem solid_trim (text : List Char) : solid (trim text) = solid text := by
  obtain ⟨before, after, whole, blankBefore, blankAfter⟩ := trim_parts text
  have parts := congrArg solid whole
  rw [solid_append, solid_append, solid_of_blank blankBefore, solid_of_blank blankAfter] at parts
  omega

theorem flatten_modify_head (nonempty : pieces ≠ []) (character : Char) :
    (pieces.modifyHead (character :: ·)).flatten = character :: pieces.flatten := by
  cases pieces with
  | nil => exact absurd rfl nonempty
  | cons first rest => rfl

/-- Each bar in a text costs a character: itself if it separates cells, and else the backslash in front of
it. -/
theorem solid_cut (text : List Char) : solid text = solid (cutCells text).flatten + text.count '|' := by
  have solidBar : ∀ rest, solid ('|' :: rest) = solid rest + 1 := solid_cons_of_not_blank rfl
  induction text using cutCells.induct with
  | case1 => rfl
  | case2 rest ih =>
      rw [cutCells, flatten_modify_head (cut_cells_ne_nil rest), solid_cons_of_not_blank rfl, solidBar, solidBar,
        List.count_cons_of_ne (by decide), List.count_cons_self]
      omega
  | case3 rest notPair ih =>
      rw [cutCells, if_pos rfl, List.flatten_cons, List.nil_append, solidBar, List.count_cons_self]
      · omega
      · exact notPair
  | case4 character rest notPair notBar ih =>
      have parts : ∀ later, solid (character :: later) = solid [character] + solid later :=
        solid_append [character]
      rw [cutCells, if_neg notBar, flatten_modify_head (cut_cells_ne_nil rest), List.count_cons_of_ne notBar,
        parts, parts (cutCells rest).flatten]
      · omega
      · exact notPair

theorem solid_cuts (pieces : List (List Char)) :
    solid pieces.flatten = solid (pieces.flatMap cutCells).flatten + pieces.flatten.count '|' := by
  induction pieces with
  | nil => rfl
  | cons first rest ih =>
      have cutFirst := solid_cut first
      rw [List.flatMap_cons, List.flatten_append, List.flatten_cons, solid_append, solid_append,
        List.count_append]
      omega

theorem solid_trims (pieces : List (List Char)) :
    solid (pieces.map trim).flatten = solid pieces.flatten := by
  induction pieces with
  | nil => rfl
  | cons first rest ih =>
      rw [List.map_cons, List.flatten_cons, List.flatten_cons, solid_append, solid_append, ih,
        solid_trim]

/-- Pieces that come out of cutting as the same texts, but for blanks, hold no bar. -/
theorem no_bar_of_cuts {texts : List (List Char)} (sameSolid : solid pieces.flatten = solid texts.flatten)
    (sameTexts : (pieces.flatMap cutCells).map trim = texts.map trim) :
    ∀ piece ∈ pieces, '|' ∉ piece := by
  have cuts := solid_cuts pieces
  rw [← solid_trims (pieces.flatMap cutCells), sameTexts, solid_trims, sameSolid] at cuts
  have none : pieces.flatten.count '|' = 0 := by omega
  intro piece member bar
  exact List.count_eq_zero.mp none (List.mem_flatten.mpr ⟨piece, member, bar⟩)

/-! ## Lines with bars around their pieces -/

theorem barred_eq_join (nonempty : pieces ≠ []) :
    barred pieces = joinWith ['|'] ([] :: (pieces ++ [[]])) := by
  cases pieces with
  | nil => exact absurd rfl nonempty
  | cons first rest => simp [barred, join_with_cons]

theorem barred_eq (nonempty : pieces ≠ []) : barred pieces = pieces.flatMap ('|' :: ·) ++ ['|'] := by
  simp [barred_eq_join nonempty, join_with_cons]

theorem length_barred_congr {others : List (List Char)} (nonempty : pieces ≠ [])
    (same : pieces.map List.length = others.map List.length) :
    (barred pieces).length = (barred others).length := by
  have nonemptyOthers : others ≠ [] := by
    rintro rfl
    exact nonempty (List.map_eq_nil_iff.mp same)
  have parts : ∀ blocks : List (List Char), (blocks.flatMap ('|' :: ·)).length =
      ((blocks.map List.length).map (· + 1)).sum := by
    intro blocks
    rw [List.length_flatMap, List.map_map]
    rfl
  rw [barred_eq nonempty, barred_eq nonemptyOthers, List.length_append, List.length_append, parts, parts,
    same]

theorem forall_mem_barred {holds : Char → Prop} (nonempty : pieces ≠ []) (bar : holds '|') :
    (∀ character ∈ barred pieces, holds character) ↔
      ∀ piece ∈ pieces, ∀ character ∈ piece, holds character := by
  rw [barred_eq nonempty]
  constructor
  · intro all piece member character within
    apply all
    exact List.mem_append_left _ (List.mem_flatMap.mpr ⟨piece, member, .tail _ within⟩)
  · intro all character member
    rcases List.mem_append.mp member with inPieces | inEnd
    · obtain ⟨piece, isPiece, within⟩ := List.mem_flatMap.mp inPieces
      rcases List.mem_cons.mp within with rfl | within
      · exact bar
      · exact all piece isPiece character within
    · rwa [List.mem_singleton.mp inEnd]

/-- The cells of a barred line are those of its pieces, of which none may end in a backslash. -/
theorem cells_barred (nonempty : pieces ≠ []) (free : ∀ piece ∈ pieces, piece.getLast? ≠ some '\\') :
    cells? (barred pieces) = some ((pieces.flatMap cutCells).map trim) := by
  have freeAll : ∀ piece ∈ [] :: (pieces ++ [[]]), piece.getLast? ≠ some '\\' := by
    intro piece member
    simp only [List.mem_cons, List.mem_append, List.not_mem_nil, or_false] at member
    rcases member with rfl | member | rfl
    · simp
    · exact free piece member
    · simp
  have cells : cutCells (barred pieces) = [] :: (pieces.flatMap cutCells ++ [[]]) := by
    rw [barred_eq_join nonempty, split_join cut_cells_append (List.cons_ne_nil _ _) freeAll]
    simp [cutCells]
  simp [cells?, cells]

theorem rule_of_hyphens (nonempty : pieces ≠ [])
    (hyphens : ∀ piece ∈ pieces, piece ≠ [] ∧ ∀ character ∈ piece, character = '-') :
    IsRule pieces.length (barred pieces) := by
  have free : ∀ piece ∈ pieces, piece.getLast? ≠ some '\\' := by
    intro piece member last
    exact absurd ((hyphens piece member).2 _ (List.mem_of_getLast? last)) (by decide)
  have whole : ∀ piece ∈ pieces, cutCells piece = [piece] := by
    intro piece member
    apply cut_cells_of_no_bar
    intro bar
    exact absurd ((hyphens piece member).2 _ bar) (by decide)
  have trimmed : ∀ piece ∈ pieces, trim piece = piece := by
    intro piece member
    apply trim_of_framed
    apply framed_of_graphic (hyphens piece member).1
    intro character within
    rw [(hyphens piece member).2 character within]
    decide
  have read := cells_barred nonempty free
  rw [flat_map_of_whole whole, List.map_congr_left trimmed, List.map_id'] at read
  exact ⟨pieces, read, rfl, hyphens⟩

end TaskCab.Markdown
