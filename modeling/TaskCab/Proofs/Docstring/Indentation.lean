import Mathlib.Data.List.Basic
import Mathlib.Data.List.TakeWhile
import TaskCab.Proofs.Text.Joined
import TaskCab.Task

/-!
# The indentation of docstrings

Cleaning takes off the indentation that the lines behind the first one have in common. So it does not
matter how far to the right a docstring stands in its source: with as many more blanks in front of each of
these lines the margin grows by as much, and the same text is left. A last line without characters
is no line of a text, and becomes one when it is indented; it is dropped with the empty lines at the end.
-/

namespace TaskCab.Docstring

open TaskCab.Text

/-! ## Lines with a margin -/

def indent (depth : Nat) (line : List Char) : List Char := List.replicate depth ' ' ++ line

theorem blank_indent (depth : Nat) (line : List Char) :
    isBlankText (indent depth line) = isBlankText line := by
  have spaces : (List.replicate depth ' ').all isBlank = true := by
    apply List.all_eq_true.mpr
    intro character member
    rw [List.eq_of_mem_replicate member]
    rfl
  rw [isBlankText, indent, List.all_append, spaces, Bool.true_and, isBlankText]

theorem indentation_indent (depth : Nat) (line : List Char) :
    indentation (indent depth line) = depth + indentation line := by
  have spaces : ∀ character ∈ List.replicate depth ' ', isBlank character = true := by
    intro character member
    rw [List.eq_of_mem_replicate member]
    rfl
  rw [indentation, indent, List.takeWhile_append_of_pos spaces, List.length_append,
    List.length_replicate, indentation]

theorem drop_indent (depth margin : Nat) (line : List Char) :
    (indent depth line).drop (depth + margin) = line.drop margin := by
  rw [indent, ← List.drop_drop, List.drop_left' List.length_replicate]

theorem min_shifted (depth : Nat) (margins : List Nat) :
    (margins.map (depth + ·)).min? = margins.min?.map (depth + ·) := by
  induction margins with
  | nil => rfl
  | cons margin rest ih =>
      rw [List.map_cons, List.min?_cons, ih, List.min?_cons]
      cases rest.min? with
      | none => rfl
      | some least => exact congrArg some (Nat.add_min_add_left depth margin least)

theorem margin_indented (depth : Nat) (lines : List (List Char)) :
    margin? (lines.map (indent depth)) = (margin? lines).map (depth + ·) := by
  have kept : (lines.map (indent depth)).filter (fun line => !isBlankText line) =
      (lines.filter fun line => !isBlankText line).map (indent depth) := by
    rw [List.filter_map]
    congr 1
    apply List.filter_congr
    intro line _
    rw [Function.comp_apply, blank_indent]
  rw [margin?, kept, List.map_map, margin?, ← min_shifted, List.map_map]
  congr 2
  funext line
  exact indentation_indent depth line

theorem margin_of_filled {lines : List (List Char)}
    (filled : ∃ line ∈ lines, isBlankText line = false) : ∃ margin, margin? lines = some margin := by
  obtain ⟨line, member, notBlank⟩ := filled
  apply Option.isSome_iff_exists.mp
  rw [margin?, List.isSome_min?_iff]
  apply List.ne_nil_of_mem
  exact List.mem_map_of_mem (List.mem_filter.mpr ⟨member, by simp [notBlank]⟩)

/-- Blanks in front of every line but the first are part of the margin. -/
theorem dedent_indented (depth : Nat) (first : List Char) {rest : List (List Char)}
    (filled : ∃ line ∈ rest, isBlankText line = false) :
    dedent (first :: rest.map (indent depth)) = dedent (first :: rest) := by
  obtain ⟨margin, found⟩ := margin_of_filled filled
  rw [dedent, margin_indented, found, dedent, found, List.map_map]
  congr 1
  apply List.map_congr_left
  intro line _
  exact drop_indent depth margin line

/-! ## Empty lines at the end -/

theorem dedent_concat_empty (lines : List (List Char)) :
    dedent (lines ++ [[]]) = dedent lines ++ [[]] := by
  cases lines with
  | nil => rfl
  | cons first rest =>
      have margin : margin? (rest ++ [[]]) = margin? rest := by
        rw [margin?, List.filter_append, margin?]
        congr 2
        exact List.append_nil _
      rw [List.cons_append, dedent, margin, dedent, List.map_append, List.map_singleton, List.drop_nil]
      rfl

theorem drop_empty_ends_concat (lines : List (List Char)) :
    dropEmptyEnds (lines ++ [[]]) = dropEmptyEnds lines := by
  rw [dropEmptyEnds, List.reverse_concat, List.dropWhile_cons_of_pos rfl]
  rfl

/-! ## Lines of a text -/

/-- The lines that a text is joined of, as they are read: each is without the return of its end, and the
last one, which no line feed ends, is as it was written. -/
def rows (lines : List (List Char)) : List (List Char) :=
  lines.dropLast.map dropReturn ++ lines.getLast?.toList

theorem split_joined {lines : List (List Char)} (nonempty : lines ≠ [])
    (noFeed : ∀ line ∈ lines, '\n' ∉ line) :
    splitWhere (· == '\n') (joinWith ['\n'] lines) = lines := by
  have within {line : List Char} (none : '\n' ∉ line) : ∀ character ∈ line, (character == '\n') = false := by
    intro character member
    apply beq_eq_false_iff_ne.mpr
    rintro rfl
    exact none member
  induction lines with
  | nil => exact absurd rfl nonempty
  | cons line rest ih =>
      cases rest with
      | nil =>
          rw [join_with_cons, List.flatMap_nil, List.append_nil]
          exact split_where_none (within (noFeed line (.head _)))
      | cons next rest =>
          have later := ih (by simp) fun other member => noFeed other (.tail _ member)
          rw [join_with_cons_cons, List.append_assoc, List.singleton_append,
            split_where_first (within (noFeed line (.head _))) rfl, later]

/-- The rows of a text are its lines, with an empty one behind them where the last row is empty. -/
theorem rows_joined {lines : List (List Char)} (nonempty : lines ≠ [])
    (noFeed : ∀ line ∈ lines, '\n' ∉ line) :
    rows lines = Text.lines (joinWith ['\n'] lines) ∨
      rows lines = Text.lines (joinWith ['\n'] lines) ++ [[]] := by
  rw [rows, Text.lines, split_joined nonempty noFeed]
  cases last : lines.getLast? with
  | none => exact absurd (List.getLast?_eq_none_iff.mp last) nonempty
  | some line =>
      cases line with
      | nil => exact .inr rfl
      | cons character line => exact .inl rfl

theorem clean_joined {lines : List (List Char)} (nonempty : lines ≠ [])
    (noFeed : ∀ line ∈ lines, '\n' ∉ line) :
    clean (joinWith ['\n'] lines) =
      joinWith ['\n'] (dropEmptyEnds (dedent ((rows lines).map expandTabs))) := by
  rw [clean]
  rcases rows_joined nonempty noFeed with same | empty
  · rw [same]
  · have noTabs : expandTabs [] = [] := rfl
    rw [empty, List.map_append, List.map_singleton, noTabs, dedent_concat_empty, drop_empty_ends_concat]

theorem rows_cons (first : List Char) {rest : List (List Char)} (nonempty : rest ≠ []) :
    rows (first :: rest) = dropReturn first :: rows rest := by
  obtain ⟨next, more, rfl⟩ := List.exists_cons_of_ne_nil nonempty
  rw [rows, List.dropLast_cons_cons, List.map_cons, List.getLast?_cons_cons, List.cons_append, rows]

theorem drop_return_indent (depth : Nat) (line : List Char) :
    dropReturn (indent depth line) = indent depth (dropReturn line) := by
  cases line with
  | nil =>
      have noReturn : (indent depth []).getLast? ≠ some '\r' := by
        intro last
        have member := List.mem_of_getLast? last
        rw [indent, List.append_nil] at member
        exact absurd (List.eq_of_mem_replicate member) (by decide)
      have none : dropReturn [] = [] := rfl
      rw [none, dropReturn]
      split
      next last => exact absurd last noReturn
      next => rfl
  | cons first rest =>
      have last : (indent depth (first :: rest)).getLast? = (first :: rest).getLast? := by
        rw [indent, List.getLast?_append, List.getLast?_cons, Option.some_or]
      rw [dropReturn, last, dropReturn]
      split
      next => exact List.dropLast_append_of_ne_nil (List.cons_ne_nil first rest)
      next => rfl

theorem rows_indented (depth : Nat) (lines : List (List Char)) :
    rows (lines.map (indent depth)) = (rows lines).map (indent depth) := by
  have returns : dropReturn ∘ indent depth = indent depth ∘ dropReturn := by
    funext line
    exact drop_return_indent depth line
  rw [rows, ← List.map_dropLast, List.map_map, returns, List.getLast?_map, Option.toList_map, rows,
    List.map_append, List.map_map]

theorem drop_return_cases (line : List Char) :
    dropReturn line = line ∨ line = dropReturn line ++ ['\r'] := by
  rw [dropReturn]
  split
  next ends => exact .inr (List.dropLast_append_getLast? _ ends).symm
  next => exact .inl rfl

theorem line_of_row {lines : List (List Char)} {row : List Char} (member : row ∈ rows lines) :
    ∃ line ∈ lines, row = line ∨ line = row ++ ['\r'] := by
  rcases List.mem_append.mp member with closed | last
  · obtain ⟨line, inLines, rfl⟩ := List.mem_map.mp closed
    exact ⟨line, List.dropLast_subset _ inLines, drop_return_cases line⟩
  · exact ⟨row, List.mem_of_getLast? (Option.mem_toList.mp last), .inl rfl⟩

theorem row_of_line {lines : List (List Char)} {line : List Char} (member : line ∈ lines) :
    ∃ row ∈ rows lines, row = line ∨ line = row ++ ['\r'] := by
  have nonempty := List.ne_nil_of_mem member
  rw [← List.dropLast_append_getLast nonempty] at member
  rcases List.mem_append.mp member with closed | last
  · exact ⟨dropReturn line, List.mem_append_left _ (List.mem_map_of_mem closed), drop_return_cases line⟩
  · refine ⟨line, List.mem_append_right _ ?_, .inl rfl⟩
    rw [List.getLast?_eq_some_getLast nonempty, List.eq_of_mem_singleton last]
    exact .head _

theorem filled_rows {lines : List (List Char)} (filled : ∃ line ∈ lines, isBlankText line = false) :
    ∃ row ∈ rows lines, isBlankText row = false := by
  obtain ⟨line, member, notBlank⟩ := filled
  obtain ⟨row, inRows, same⟩ := row_of_line member
  refine ⟨row, inRows, ?_⟩
  rcases same with rfl | rfl
  · exact notBlank
  · rwa [isBlankText, List.all_append, ← isBlankText, List.all_cons, List.all_nil,
      show isBlank '\r' = true from rfl, Bool.and_true, Bool.and_true] at notBlank

/-! ## Tabs -/

theorem expand_without_tabs {line : List Char} (noTab : '\t' ∉ line) : expandTabs line = line := by
  have at_column (column : Nat) : expandFrom column line = line := by
    induction line generalizing column with
    | nil => rfl
    | cons character rest ih =>
        have notTab : character ≠ '\t' := fun same => noTab (same ▸ .head _)
        rw [expandFrom, if_neg notTab, ih fun member => noTab (.tail _ member)]
  exact at_column 0

theorem expand_rows {lines : List (List Char)} (noTab : ∀ line ∈ lines, '\t' ∉ line) :
    (rows lines).map expandTabs = rows lines := by
  have same : ∀ row ∈ rows lines, expandTabs row = id row := by
    intro row member
    apply expand_without_tabs
    obtain ⟨line, inLines, same⟩ := line_of_row member
    intro isTab
    apply noTab line inLines
    rcases same with rfl | rfl
    · exact isTab
    · exact List.mem_append_left _ isTab
  rw [List.map_congr_left same, List.map_id]

theorem not_mem_indent {character : Char} (notSpace : character ≠ ' ') {depth : Nat} {line : List Char}
    (absent : character ∉ line) : character ∉ indent depth line := by
  intro member
  rcases List.mem_append.mp member with space | inLine
  · exact notSpace (List.eq_of_mem_replicate space)
  · exact absent inLine

/-! ## Nested docstrings -/

/-- The lines of a docstring that stands as many columns further to the right. The first line stands
behind the quotation mark, and stays as it is. -/
def nested (depth : Nat) : List (List Char) → List (List Char)
  | [] => []
  | first :: rest => first :: rest.map (indent depth)

theorem not_mem_nested {character : Char} (notSpace : character ≠ ' ') (depth : Nat)
    {lines : List (List Char)} (absent : ∀ line ∈ lines, character ∉ line) :
    ∀ line ∈ nested depth lines, character ∉ line := by
  cases lines with
  | nil => exact absent
  | cons first rest =>
      obtain ⟨notFirst, notRest⟩ := List.forall_mem_cons.mp absent
      have notMoved : ∀ line ∈ rest.map (indent depth), character ∉ line := by
        intro line member
        obtain ⟨before, inRest, rfl⟩ := List.mem_map.mp member
        exact not_mem_indent notSpace (notRest before inRest)
      exact List.forall_mem_cons.mpr ⟨notFirst, notMoved⟩

theorem clean_nested (depth : Nat) {lines : List (List Char)} (noFeed : ∀ line ∈ lines, '\n' ∉ line)
    (noTab : ∀ line ∈ lines, '\t' ∉ line) (filled : ∃ line ∈ lines.tail, isBlankText line = false) :
    clean (joinWith ['\n'] (nested depth lines)) = clean (joinWith ['\n'] lines) := by
  have noFeedNested := not_mem_nested (by decide) depth noFeed
  have noTabNested := not_mem_nested (by decide) depth noTab
  cases lines with
  | nil => rfl
  | cons first rest =>
      rw [List.tail_cons] at filled
      have nonempty : rest ≠ [] := by
        obtain ⟨line, member, -⟩ := filled
        exact List.ne_nil_of_mem member
      have moved : rest.map (indent depth) ≠ [] := by simpa using nonempty
      rw [nested] at noFeedNested noTabNested ⊢
      rw [clean_joined (List.cons_ne_nil _ _) noFeedNested, expand_rows noTabNested,
        rows_cons first moved, rows_indented, dedent_indented depth _ (filled_rows filled),
        ← rows_cons first nonempty, clean_joined (List.cons_ne_nil _ _) noFeed, expand_rows noTab]

/-- However far to the right a docstring stands, the cleaned text is the same, and so are the descriptions
and defaults that its parameters have in it, also where the docstring is that of the first class of a
source. -/
theorem parameters_of_nested (depth : Nat) {lines : List (List Char)}
    (noFeed : ∀ line ∈ lines, '\n' ∉ line) (noTab : ∀ line ∈ lines, '\t' ∉ line)
    (filled : ∃ line ∈ lines.tail, isBlankText line = false) :
    clean (joinWith ['\n'] (nested depth lines)) = clean (joinWith ['\n'] lines) ∧
      parameters (clean (joinWith ['\n'] (nested depth lines))) =
        parameters (clean (joinWith ['\n'] lines)) ∧
      ∀ (outer inner : Source.Node) (behind others : List Source.Node),
        Task.classDocstring? outer = some (joinWith ['\n'] lines) →
        Task.classDocstring? inner = some (joinWith ['\n'] (nested depth lines)) →
        parameters (Task.documentation (inner :: others)).toList =
          parameters (Task.documentation (outer :: behind)).toList := by
  have same := clean_nested depth noFeed noTab filled
  refine ⟨same, congrArg parameters same, ?_⟩
  intro outer inner behind others outerText innerText
  rw [Task.documentation, innerText, Task.documentation, outerText, Option.map_some, Option.map_some, same]

def sampleLines : List (List Char) :=
  ["Summary", "    Parameter descriptions", "", "    vis  Input\r", "          default: (1)", "       ",
    ""].map String.toList

def sampleClass (lines : List (List Char)) : Source.Node :=
  let quoted := "\"\"\"".toList ++ (joinWith ['\n'] lines ++ "\"\"\"".toList)
  .node (.classDef []) [.node .block [.node (.simple [.leaf ⟨[], false, .string, quoted⟩]) []]]

theorem parameters_of_nested_sample :
    (∀ line ∈ sampleLines, '\n' ∉ line) ∧ (∀ line ∈ sampleLines, '\t' ∉ line) ∧
      (∃ line ∈ sampleLines.tail, isBlankText line = false) ∧
      clean (joinWith ['\n'] sampleLines) =
        "Summary\nParameter descriptions\n\nvis  Input\n      default: (1)\n   ".toList ∧
      clean (joinWith ['\n'] (nested 3 sampleLines)) = clean (joinWith ['\n'] sampleLines) ∧
      parameters (clean (joinWith ['\n'] (nested 3 sampleLines))) =
        parameters (clean (joinWith ['\n'] sampleLines)) ∧
      Task.classDocstring? (sampleClass sampleLines) = some (joinWith ['\n'] sampleLines) ∧
      Task.classDocstring? (sampleClass (nested 3 sampleLines)) =
        some (joinWith ['\n'] (nested 3 sampleLines)) ∧
      parameters (Task.documentation [sampleClass (nested 3 sampleLines)]).toList =
        parameters (Task.documentation [sampleClass sampleLines]).toList :=
  have noFeed : ∀ line ∈ sampleLines, '\n' ∉ line := by decide
  have noTab : ∀ line ∈ sampleLines, '\t' ∉ line := by decide
  have filled : ∃ line ∈ sampleLines.tail, isBlankText line = false := by decide
  have outer : Task.classDocstring? (sampleClass sampleLines) = some (joinWith ['\n'] sampleLines) := by
    decide
  have inner : Task.classDocstring? (sampleClass (nested 3 sampleLines)) =
      some (joinWith ['\n'] (nested 3 sampleLines)) := by
    decide
  have same := parameters_of_nested 3 noFeed noTab filled
  ⟨noFeed, noTab, filled, rfl, same.1, same.2.1, outer, inner, same.2.2 _ _ [] [] outer inner⟩

end TaskCab.Docstring
