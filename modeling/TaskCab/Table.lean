import TaskCab.Document
import TaskCab.Text.Search

/-!
# Tables

A table has a line of headers, a line of hyphens and a line for each row, with cells filled up to the
width of their column.
-/

namespace TaskCab.Table

open TaskCab.Text

/-- The width of each column: that of its widest cell. Cells beyond the headers do not count. -/
def widths (headers : List String) (rows : List (List String)) : List Nat :=
  headers.mapIdx fun column header =>
    rows.foldl (fun width row => max width ((row[column]?).getD "").length) header.length

def rowLine (widths : List Nat) (cells : List String) : List Char :=
  let filled := widths.mapIdx fun column width =>
    let cell := ((cells[column]?).getD "").toList
    ' ' :: cell ++ List.replicate (width - cell.length) ' ' ++ [' ']
  '|' :: joinWith ['|'] filled ++ ['|']

def separatorLine (widths : List Nat) : List Char :=
  '|' :: joinWith ['|'] (widths.map fun width => List.replicate (width + 2) '-') ++ ['|']

def render (headers : List String) (rows : List (List String)) : String :=
  let widths := widths headers rows
  String.ofList <| joinWith ['\n'] <|
    rowLine widths headers :: separatorLine widths :: rows.map (rowLine widths)

/-- A text of at most `width` characters, or its first ones and three points. -/
def truncate (text : String) (width : Nat) : String :=
  if width < text.length then String.ofList (text.toList.take width ++ ['.', '.', '.']) else text

def summaryHeaders : List String := ["parameter", "dtype", "default", "required", "info"]

def summaryRow (name : String) (record : InputRecord) : List String :=
  [name, record.dtype, (record.default.map SourceValue.displayText).getD "",
    if record.required then "True" else "False", truncate record.info 80]

def summary (document : CabDocument) : String :=
  "=== Stimela Cab Input Parameter Summary ===\n" ++
    render summaryHeaders (document.inputs.map fun (name, record) => summaryRow name record) ++ "\n"

end TaskCab.Table
