import Mathlib.Data.List.Forall2
import TaskCab.Proofs.Table.MarkdownTable
import TaskCab.Reference.Report

/-!
# Rendered tables

Columns are as wide as their widest cell, so that all lines of a table have the same length. Cells are
written as they are: a bar in one cuts its line into further cells or loses the backslash in front of it,
and a line end in one cuts the table. So what is written for a document is a table exactly if no cell holds
either.
-/

namespace TaskCab

open Text Markdown

namespace Table

def fill (width : Nat) (text : List Char) : List Char :=
  ' ' :: text ++ List.replicate (width - text.length) ' ' ++ [' ']

/-- A cell that holds neither a bar nor a part of a line end. -/
def IsPlain (cell : String) : Prop := '|' ∉ cell.toList ∧ OnLine cell.toList

instance (cell : String) : Decidable (IsPlain cell) := inferInstanceAs (Decidable (_ ∧ _))

def texts (cells : List String) : List (List Char) := cells.map String.toList

variable {headers cells : List String} {rows : List (List String)} {widths : List Nat}

theorem length_texts (cells : List String) : (texts cells).length = cells.length := List.length_map _

theorem row_line_eq (count : cells.length = widths.length) :
    rowLine widths cells = barred (List.zipWith fill widths (texts cells)) := by
  have filled : (widths.mapIdx fun column width =>
      let cell := ((cells[column]?).getD "").toList
      ' ' :: cell ++ List.replicate (width - cell.length) ' ' ++ [' ']) =
        List.zipWith fill widths (texts cells) := by
    apply List.ext_getElem
    · simp [texts, count]
    · intro column within inOther
      simp only [List.length_mapIdx] at within
      simp [texts, fill, count ▸ within]
  rw [rowLine, filled]
  rfl

theorem separator_line_eq (widths : List Nat) :
    separatorLine widths = barred (widths.map fun width => List.replicate (width + 2) '-') := rfl

/-! ## Filled cells -/

theorem trim_fill (width : Nat) (text : List Char) : trim (fill width text) = trim text := by
  have space : isBlank ' ' = true := rfl
  calc
    trim (fill width text) =
        trim ([' '] ++ (text ++ (List.replicate (width - text.length) ' ' ++ [' ']))) := by
      simp [fill]
    _ = trim (text ++ (List.replicate (width - text.length) ' ' ++ [' '])) :=
      trim_blank_append (by simp [space]) _
    _ = trim text := trim_append_blank (by simp [space, or_imp, forall_and]) text

theorem length_fill {width : Nat} {text : List Char} (fits : text.length ≤ width) :
    (fill width text).length = width + 2 := by
  simp only [fill, List.length_append, List.length_cons, List.length_replicate, List.length_nil]
  omega

theorem last_of_fill (width : Nat) (text : List Char) : (fill width text).getLast? = some ' ' :=
  List.getLast?_concat

theorem forall_mem_fill {holds : Char → Prop} (space : holds ' ') (width : Nat) (text : List Char) :
    (∀ character ∈ fill width text, holds character) ↔ ∀ character ∈ text, holds character := by
  constructor
  · intro all character member
    apply all
    simp [fill, member]
  · intro all character member
    simp only [fill, List.cons_append, List.mem_cons, List.mem_append, List.not_mem_nil, or_false] at member
    rcases member with rfl | (member | filler) | rfl
    · exact space
    · exact all character member
    · rwa [List.eq_of_mem_replicate filler]
    · exact space

variable {contents : List (List Char)}

theorem trims_filled (count : contents.length = widths.length) :
    (List.zipWith fill widths contents).map trim = contents.map trim := by
  induction contents generalizing widths with
  | nil => simp
  | cons text rest ih =>
      cases widths with
      | nil => simp at count
      | cons width others =>
          rw [List.zipWith_cons_cons, List.map_cons, List.map_cons, trim_fill,
            ih (Nat.succ.inj count)]

theorem solid_filled (count : contents.length = widths.length) :
    solid (List.zipWith fill widths contents).flatten = solid contents.flatten := by
  rw [← solid_trims, trims_filled count, solid_trims]

theorem lengths_filled (fit : List.Forall₂ (fun width text => text.length ≤ width) widths contents) :
    (List.zipWith fill widths contents).map List.length = widths.map (· + 2) := by
  induction fit with
  | nil => rfl
  | cons fits _ ih =>
      rw [List.zipWith_cons_cons, List.map_cons, List.map_cons, length_fill fits, ih]

theorem forall_mem_filled {holds : Char → Prop} (space : holds ' ')
    (count : contents.length = widths.length) :
    (∀ piece ∈ List.zipWith fill widths contents, ∀ character ∈ piece, holds character) ↔
      ∀ text ∈ contents, ∀ character ∈ text, holds character := by
  induction contents generalizing widths with
  | nil => simp
  | cons text rest ih =>
      cases widths with
      | nil => simp at count
      | cons width others =>
          rw [List.zipWith_cons_cons, List.forall_mem_cons, List.forall_mem_cons,
            forall_mem_fill space, ih (Nat.succ.inj count)]

theorem filled_free :
    ∀ piece ∈ List.zipWith fill widths contents, piece.getLast? ≠ some '\\' := by
  intro piece member
  obtain ⟨column, within, rfl⟩ := List.mem_iff_getElem.mp member
  rw [List.getElem_zipWith, last_of_fill]
  decide

theorem filled_ne_nil (count : contents.length = widths.length) (nonempty : widths ≠ []) :
    List.zipWith fill widths contents ≠ [] := by
  intro empty
  rw [← List.length_eq_zero_iff, List.length_zipWith, count, Nat.min_self] at empty
  exact nonempty (List.length_eq_zero_iff.mp empty)

/-! ## Lines of cells -/

/-- A line of cells reads as those cells exactly if they hold no bar. -/
theorem row_reads_iff (count : cells.length = widths.length) (nonempty : widths ≠ []) :
    ReadsAs (rowLine widths cells) cells ↔ ∀ cell ∈ cells, '|' ∉ cell.toList := by
  have sizes : (texts cells).length = widths.length := (length_texts cells).trans count
  have read := cells_barred (filled_ne_nil sizes nonempty) filled_free
  have trims : cells.map (fun cell => trim cell.toList) = (texts cells).map trim := by
    rw [texts, List.map_map]
    rfl
  have noBar : (∀ cell ∈ cells, '|' ∉ cell.toList) ↔
      ∀ piece ∈ List.zipWith fill widths (texts cells), '|' ∉ piece := by
    simp only [← List.forall_mem_ne']
    rw [forall_mem_filled (by decide) sizes, texts, List.forall_mem_map]
  rw [ReadsAs, row_line_eq count, read, trims, Option.some_inj, noBar]
  constructor
  · exact no_bar_of_cuts (solid_filled sizes)
  · intro noBars
    have whole := flat_map_of_whole fun piece member => cut_cells_of_no_bar (noBars piece member)
    rw [whole, trims_filled sizes]

theorem row_one_line_iff (count : cells.length = widths.length) (nonempty : widths ≠ []) :
    (cutLines (rowLine widths cells)).length = 1 ↔ ∀ cell ∈ cells, OnLine cell.toList := by
  have sizes : (texts cells).length = widths.length := (length_texts cells).trans count
  simp only [cut_lines_length_eq_one_iff, on_line_iff]
  rw [row_line_eq count, forall_mem_barred (filled_ne_nil sizes nonempty) (by decide),
    forall_mem_filled (by decide) sizes, texts, List.forall_mem_map]

theorem separator_is_rule (nonempty : widths ≠ []) : IsRule widths.length (separatorLine widths) := by
  have hyphens : ∀ piece ∈ widths.map fun width => List.replicate (width + 2) '-',
      piece ≠ [] ∧ ∀ character ∈ piece, character = '-' := by
    intro piece member
    obtain ⟨width, -, rfl⟩ := List.mem_map.mp member
    exact ⟨by simp, fun character within => List.eq_of_mem_replicate within⟩
  have rule := rule_of_hyphens (by simpa using nonempty) hyphens
  rwa [List.length_map] at rule

theorem length_row_line (nonempty : widths ≠ [])
    (fit : List.Forall₂ (fun width text => text.length ≤ width) widths (texts cells)) :
    (rowLine widths cells).length = (separatorLine widths).length := by
  have sizes : (texts cells).length = widths.length := fit.length_eq.symm
  have count : cells.length = widths.length := (length_texts cells).symm.trans sizes
  rw [row_line_eq count, separator_line_eq]
  apply length_barred_congr (filled_ne_nil sizes nonempty)
  rw [lengths_filled fit]
  simp [Function.comp_def]

/-- A line of cells is one line that reads as those cells exactly if they are plain. -/
theorem plain_row_iff (count : cells.length = widths.length) (nonempty : widths ≠ []) :
    (∀ cell ∈ cells, IsPlain cell) ↔
      ReadsAs (rowLine widths cells) cells ∧ (cutLines (rowLine widths cells)).length = 1 := by
  rw [row_reads_iff count nonempty, row_one_line_iff count nonempty]
  simp only [IsPlain, imp_and, forall_and]

theorem separator_one_line (nonempty : widths ≠ []) : (cutLines (separatorLine widths)).length = 1 := by
  rw [cut_lines_length_eq_one_iff, on_line_iff, separator_line_eq,
    forall_mem_barred (by simpa using nonempty) (by decide)]
  intro piece member character within
  obtain ⟨width, -, rfl⟩ := List.mem_map.mp member
  rw [List.eq_of_mem_replicate within]
  decide

/-! ## The widths of columns -/

theorem le_widest {Item : Type} (size : Item → Nat) (items : List Item) (start : Nat) :
    start ≤ items.foldl (fun width item => max width (size item)) start ∧
      ∀ item ∈ items, size item ≤ items.foldl (fun width item => max width (size item)) start := by
  induction items generalizing start with
  | nil => simp
  | cons first rest ih =>
      obtain ⟨above, members⟩ := ih (max start (size first))
      rw [List.foldl_cons, List.forall_mem_cons]
      exact ⟨(Nat.le_max_left _ _).trans above, (Nat.le_max_right _ _).trans above, members⟩

theorem length_widths (headers : List String) (rows : List (List String)) :
    (Table.widths headers rows).length = headers.length :=
  List.length_mapIdx

theorem widths_ne_nil (nonempty : headers ≠ []) : Table.widths headers rows ≠ [] := by
  rw [← List.length_pos_iff, length_widths]
  exact List.length_pos_iff.mpr nonempty

/-- No cell of the headers or of a row is wider than its column. -/
theorem fits_widths {row : List String} (member : row ∈ headers :: rows)
    (count : row.length = headers.length) :
    List.Forall₂ (fun width text => text.length ≤ width) (Table.widths headers rows) (texts row) := by
  apply List.forall₂_iff_get.mpr
  refine ⟨by rw [length_widths, length_texts, count], ?_⟩
  intro column within inRow
  rw [length_texts] at inRow
  have inHeaders : column < headers.length := count ▸ inRow
  obtain ⟨header, others⟩ :=
    le_widest (fun row : List String => ((row[column]?).getD "").length) rows headers[column].length
  simp only [Table.widths, texts, List.get_eq_getElem, List.getElem_mapIdx, List.getElem_map,
    String.length_toList]
  rcases List.mem_cons.mp member with rfl | inRows
  · exact header
  · simpa [inRow] using others row inRows

/-! ## Whole tables -/

def written (headers : List String) (rows : List (List String)) : List (List Char) :=
  let widths := Table.widths headers rows
  rowLine widths headers :: separatorLine widths :: rows.map (rowLine widths)

theorem cut_lines_render (headers : List String) (rows : List (List String)) :
    cutLines (render headers rows).toList = (written headers rows).flatMap cutLines := by
  have ends : ∀ line ∈ written headers rows, line.getLast? = some '|' := by
    intro line member
    simp only [written, List.mem_cons, List.mem_map] at member
    rcases member with rfl | rfl | ⟨row, -, rfl⟩ <;> exact List.getLast?_concat
  have free : ∀ line ∈ written headers rows, line.getLast? ≠ some '\r' := by
    intro line member
    rw [ends line member]
    decide
  have text : (render headers rows).toList = joinWith ['\n'] (written headers rows) :=
    String.toList_ofList
  have nonempty : written headers rows ≠ [] := List.cons_ne_nil _ _
  rw [text, cut_lines_join nonempty free]

section

variable (nonempty : headers ≠ []) (rectangular : ∀ row ∈ rows, row.length = headers.length)

include nonempty rectangular

/-- All lines of a table are written with as many characters. -/
theorem length_written : ∀ line ∈ written headers rows,
    line.length = (separatorLine (Table.widths headers rows)).length := by
  intro line member
  simp only [written, List.mem_cons, List.mem_map] at member
  rcases member with rfl | rfl | ⟨row, inRows, rfl⟩
  · exact length_row_line (widths_ne_nil nonempty) (fits_widths (.head _) rfl)
  · rfl
  · exact length_row_line (widths_ne_nil nonempty) (fits_widths (.tail _ inRows) (rectangular row inRows))

theorem plain_written_row_iff {row : List String} (member : row ∈ rows) :
    (∀ cell ∈ row, IsPlain cell) ↔ ReadsAs (rowLine (Table.widths headers rows) row) row ∧
      (cutLines (rowLine (Table.widths headers rows) row)).length = 1 := by
  apply plain_row_iff
  · rw [length_widths, rectangular row member]
  · exact widths_ne_nil nonempty

theorem plain_of_table (table : IsTable headers rows (render headers rows).toList) :
    ∀ row ∈ rows, ∀ cell ∈ row, IsPlain cell := by
  intro row member
  obtain ⟨header, rule, body, same, -, -, reads⟩ := table.layout
  rw [cut_lines_render] at same
  -- Every written line gives a line or more, so that as many lines as were written are one of each.
  have count : ((written headers rows).flatMap cutLines).length = (written headers rows).length := by
    rw [same]
    simp [written, reads.length_eq]
  have single := one_of_each cut_lines_ne_nil count
  rw [flat_map_of_whole fun line inside => cut_lines_of_length_one (single line inside)] at same
  obtain ⟨-, later⟩ := List.cons.inj same
  obtain ⟨-, rfl⟩ := List.cons.inj later
  have readsRow := List.forall₂_same.mp (List.forall₂_map_left_iff.mp reads) row member
  have inWritten : rowLine (Table.widths headers rows) row ∈ written headers rows :=
    .tail _ (.tail _ (List.mem_map_of_mem member))
  exact (plain_written_row_iff nonempty rectangular member).mpr ⟨readsRow, single _ inWritten⟩

theorem table_of_plain (plainHeaders : ∀ header ∈ headers, IsPlain header)
    (plain : ∀ row ∈ rows, ∀ cell ∈ row, IsPlain cell) :
    IsTable headers rows (render headers rows).toList := by
  have columns : Table.widths headers rows ≠ [] := widths_ne_nil nonempty
  have header := (plain_row_iff (length_widths headers rows).symm columns).mp plainHeaders
  have body := fun row member =>
    (plain_written_row_iff nonempty rectangular member).mp (plain row member)
  have single : ∀ line ∈ written headers rows, (cutLines line).length = 1 := by
    intro line member
    simp only [written, List.mem_cons, List.mem_map] at member
    rcases member with rfl | rfl | ⟨row, inRows, rfl⟩
    · exact header.2
    · exact separator_one_line columns
    · exact (body row inRows).2
  have all : cutLines (render headers rows).toList = written headers rows := by
    rw [cut_lines_render]
    exact flat_map_of_whole fun line member => cut_lines_of_length_one (single line member)
  have rule := separator_is_rule columns
  rw [length_widths] at rule
  constructor
  · refine ⟨_, _, _, all, header.1, rule, ?_⟩
    rw [List.forall₂_map_left_iff]
    exact List.forall₂_same.mpr fun row member => (body row member).1
  · rw [all]
    intro first inFirst second inSecond
    rw [length_written nonempty rectangular first inFirst,
      length_written nonempty rectangular second inSecond]
  · exact rectangular

end

/-- A rendered table is one exactly if no cell of a row holds a bar or a part of a line end. -/
theorem render_is_table_iff (nonempty : headers ≠ []) (plainHeaders : ∀ header ∈ headers, IsPlain header)
    (rectangular : ∀ row ∈ rows, row.length = headers.length) :
    IsTable headers rows (render headers rows).toList ↔ ∀ row ∈ rows, ∀ cell ∈ row, IsPlain cell :=
  ⟨plain_of_table nonempty rectangular, table_of_plain nonempty rectangular plainHeaders⟩

end Table

namespace CabDocument

/-- The cells of a document's summary, a row for each input. -/
def summaryRows (document : CabDocument) : List (List String) :=
  document.inputs.map fun (name, record) => Table.summaryRow name record

/-- The cells of the report that compares a document with a reference table, a row for each input. -/
def reportRows (document : CabDocument) (reference : ReferenceTable) : List (List String) :=
  document.inputs.map fun (name, record) =>
    Report.cells name (.ofReference record (Entries.get? name reference))

/-- The summary of a document is its title and a table with a row for each input, and its report on a
reference table is such a table, each exactly if no cell of it holds a bar or a part of a line end. -/
theorem tables_well_formed_iff (document : CabDocument) (reference : ReferenceTable) :
    (∃ table, Table.summary document = "=== Stimela Cab Input Parameter Summary ===\n" ++ table ++ "\n" ∧
      (IsTable Table.summaryHeaders document.summaryRows table.toList ↔
        ∀ row ∈ document.summaryRows, ∀ cell ∈ row, Table.IsPlain cell)) ∧
    (IsTable Report.headers (document.reportRows reference)
        (Report.ofTable document reference).table.toList ↔
      ∀ row ∈ document.reportRows reference, ∀ cell ∈ row, Table.IsPlain cell) := by
  constructor
  · refine ⟨_, rfl, Table.render_is_table_iff (by decide) (by decide) ?_⟩
    intro row member
    obtain ⟨input, -, rfl⟩ := List.mem_map.mp member
    rfl
  · have table : (Report.ofTable document reference).table =
        Table.render Report.headers (document.reportRows reference) := by
      simp [Report.table, Report.ofTable, reportRows, Function.comp_def]
    rw [table]
    refine Table.render_is_table_iff (by decide) (by decide) ?_
    intro row member
    obtain ⟨input, -, rfl⟩ := List.mem_map.mp member
    rfl

def barredDocument : CabDocument :=
  ⟨"t", [("x", .make "Any" (some (.decoded (.str "a|b"))) "")], none⟩

/-- The bar cuts a cell of the summary in two. The report, which shows no defaults, is a table, unless the
reference has a description of two lines. -/
theorem tables_well_formed_iff_of_bar :
    (∃ table, Table.summary barredDocument =
        "=== Stimela Cab Input Parameter Summary ===\n" ++ table ++ "\n" ∧
      ¬IsTable Table.summaryHeaders barredDocument.summaryRows table.toList) ∧
    IsTable Report.headers (barredDocument.reportRows [])
      (Report.ofTable barredDocument []).table.toList ∧
    ¬IsTable Report.headers (barredDocument.reportRows [("x", ⟨"", "first\nsecond"⟩)])
      (Report.ofTable barredDocument [("x", ⟨"", "first\nsecond"⟩)]).table.toList := by
  obtain ⟨⟨table, text, isTable⟩, isReport⟩ := tables_well_formed_iff barredDocument []
  refine ⟨⟨table, text, ?_⟩, isReport.mpr (by decide +kernel), ?_⟩
  · rw [isTable]
    decide +kernel
  · rw [(tables_well_formed_iff barredDocument _).2]
    decide +kernel

end CabDocument

end TaskCab
