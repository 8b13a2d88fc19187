import Mathlib.Tactic.SplitIfs
import TaskCab.Proofs.Entries
import TaskCab.Proofs.Text.Trim
import TaskCab.Reference.Page

/-!
# Rendered pages

A table that is rendered into a page is read back from it. No text can end a cell or start a tag, since it
stands there escaped, and what is escaped is decoded once.
-/

namespace TaskCab.Page

open TaskCab.Text

/-! ### Rendering -/

inductive Tag where
  | table
  | row
  | heading
  | cell
  | paragraph
  | code
  | bold
deriving DecidableEq, Repr

def Tag.name : Tag → String
  | table => "table"
  | row => "tr"
  | heading => "th"
  | cell => "td"
  | paragraph => "p"
  | code => "code"
  | bold => "b"

def opening (tag : Tag) : List Char := '<' :: (tag.name.toList ++ ['>'])

def closing (tag : Tag) : List Char := '<' :: '/' :: (tag.name.toList ++ ['>'])

def element (tag : Tag) (content : List Char) : List Char := opening tag ++ (content ++ closing tag)

/-- The elements that can stand around the text of a cell. -/
inductive Wrapper where
  | paragraph
  | code
  | bold
deriving DecidableEq, Repr

def Wrapper.tag : Wrapper → Tag
  | paragraph => .paragraph
  | code => .code
  | bold => .bold

def escapeChar (character : Char) : List Char :=
  if character = '&' then "&amp;".toList
  else if character = '<' then "&lt;".toList
  else if character = '>' then "&gt;".toList
  else [character]

def escape (text : List Char) : List Char := text.flatMap escapeChar

structure Cell where
  wrappers : List Wrapper
  text : String
deriving DecidableEq, Repr

def wrap (wrappers : List Wrapper) (content : List Char) : List Char :=
  wrappers.foldr (fun wrapper inner => element wrapper.tag inner) content

def Cell.content (cell : Cell) : List Char := wrap cell.wrappers (escape cell.text.toList)

def rowContent (tag : Tag) (cells : List Cell) : List Char :=
  (cells.map Cell.content).flatMap (element tag)

/-- A row for one input, with any further cells. -/
structure Row where
  name : Cell
  default : Cell
  description : Cell
  further : List Cell
deriving DecidableEq, Repr

namespace Row

def content (row : Row) : List Char :=
  rowContent .cell (row.name :: row.default :: row.description :: row.further)

def entry (row : Row) : String × Reference :=
  (row.name.text, ⟨row.default.text, row.description.text⟩)

def IsTrimmed (row : Row) : Prop :=
  ∀ cell ∈ [row.name, row.default, row.description], Text.IsTrimmed cell.text.toList

instance (row : Row) : Decidable row.IsTrimmed :=
  inferInstanceAs (Decidable (∀ cell ∈ [row.name, row.default, row.description], _))

end Row

/-- A table with a row of headings and one row for each input. -/
def tableText (headings : List Cell) (rows : List Row) : List Char :=
  element .table ((rowContent .heading headings :: rows.map Row.content).flatMap (element .row))

/-! ### Tags -/

theorem Tag.name_plain (tag : Tag) : ∀ letter ∈ tag.name.toList,
    letter.toLower = letter ∧ letter ≠ '<' ∧ letter ≠ '>' ∧ letter ≠ '/' := by
  cases tag <;> decide

theorem after_word_append {word : List Char} (lower : ∀ letter ∈ word, letter.toLower = letter)
    (rest : List Char) : afterWord? word (word ++ rest) = some rest := by
  induction word with
  | nil => rfl
  | cons letter word ih =>
      rw [List.cons_append, afterWord?, if_pos (lower letter (.head _))]
      exact ih fun other member => lower other (.tail _ member)

theorem after_word_other {tag other : Tag} (different : tag ≠ other) (rest : List Char) :
    afterWord? tag.name.toList (other.name.toList ++ rest) = none := by
  cases tag <;> cases other <;> first | exact absurd rfl different | rfl

theorem after_word_tag {before : List Char} (plain : ∀ letter ∈ before, letter.toLower = letter)
    (tag : Tag) (rest : List Char) :
    afterWord? (before ++ tag.name.toList) (before ++ (tag.name.toList ++ rest)) = some rest := by
  rw [← List.append_assoc]
  refine after_word_append (fun letter member => ?_) rest
  rcases List.mem_append.mp member with inBefore | inName
  · exact plain letter inBefore
  · exact (tag.name_plain letter inName).1

theorem after_opening (tag : Tag) (rest : List Char) :
    afterOpening? tag.name.toList (opening tag ++ rest) = some rest := by
  have name : afterWord? ('<' :: tag.name.toList) (opening tag ++ rest) = some ('>' :: rest) := by
    rw [opening, List.cons_append, List.append_assoc]
    exact @after_word_tag ['<'] (by simp) tag ('>' :: rest)
  have noWord : isWordChar '>' = false := by decide +kernel
  simp [afterOpening?, name, noWord]

theorem after_closing (tag : Tag) (rest : List Char) :
    afterClosing? tag.name.toList (closing tag ++ rest) = some rest := by
  have name : afterWord? ('<' :: '/' :: tag.name.toList) (closing tag ++ rest) =
      some ('>' :: rest) := by
    rw [closing, List.cons_append, List.cons_append, List.append_assoc]
    exact @after_word_tag ['<', '/'] (by simp) tag ('>' :: rest)
  have start : trimStart ('>' :: rest) = '>' :: rest := rfl
  rw [afterClosing?, name, Option.bind_eq_bind, Option.bind_some, start]
  rfl

/-! ### Contents of elements -/

/-- Whether no closing tag of an element starts in a text, whatever follows the text. -/
def Encloses (tag : Tag) : List Char → Prop
  | [] => True
  | character :: text =>
      (∀ rest, afterClosing? tag.name.toList (character :: (text ++ rest)) = none) ∧
        Encloses tag text

variable {tag : Tag} {text : List Char}

theorem encloses_append {left right : List Char} (atLeft : Encloses tag left)
    (atRight : Encloses tag right) : Encloses tag (left ++ right) := by
  induction left with
  | nil => exact atRight
  | cons character left ih =>
      refine ⟨fun rest => ?_, ih atLeft.2⟩
      have whole := atLeft.1 (right ++ rest)
      rwa [← List.append_assoc] at whole

theorem after_closing_text {character : Char} (different : character ≠ '<') (rest : List Char) :
    afterClosing? tag.name.toList (character :: rest) = none := by
  have letter : character.toLower ≠ '<' := by
    rcases to_lower_cases character with same | ⟨capital, -, lowered⟩
    · rwa [same]
    · intro isAngle
      rw [isAngle] at lowered
      have code : '<'.toNat = 60 := rfl
      omega
  simp [afterClosing?, afterWord?, letter]

theorem encloses_text (noTag : '<' ∉ text) : Encloses tag text := by
  induction text with
  | nil => trivial
  | cons character text ih =>
      have different : character ≠ '<' := fun same => noTag (same ▸ .head _)
      exact ⟨fun rest => after_closing_text different _, ih fun member => noTag (.tail _ member)⟩

theorem encloses_cons_tag {inside : List Char} (noTag : '<' ∉ inside)
    (other : ∀ rest, afterWord? ('/' :: tag.name.toList) (inside ++ rest) = none) :
    Encloses tag ('<' :: inside) := by
  refine ⟨fun rest => ?_, encloses_text noTag⟩
  have name : afterWord? ('<' :: '/' :: tag.name.toList) ('<' :: (inside ++ rest)) = none := other rest
  rw [afterClosing?, name]
  rfl

theorem no_angle_name (tag : Tag) : '<' ∉ tag.name.toList ++ ['>'] := by
  cases tag <;> decide

theorem encloses_opening (tag other : Tag) : Encloses tag (opening other) := by
  refine encloses_cons_tag (no_angle_name other) fun rest => ?_
  cases other <;> rfl

theorem encloses_closing {other : Tag} (different : tag ≠ other) : Encloses tag (closing other) := by
  refine encloses_cons_tag ?_ fun rest => ?_
  · simpa using no_angle_name other
  · rw [List.cons_append, List.append_assoc]
    exact after_word_other different (['>'] ++ rest)

theorem encloses_element {other : Tag} {content : List Char} (different : tag ≠ other)
    (inside : Encloses tag content) : Encloses tag (element other content) :=
  encloses_append (encloses_opening tag other)
    (encloses_append inside (encloses_closing different))

theorem encloses_elements {other : Tag} {contents : List (List Char)} (different : tag ≠ other)
    (each : ∀ content ∈ contents, Encloses tag content) :
    Encloses tag (contents.flatMap (element other)) := by
  induction contents with
  | nil => trivial
  | cons content contents ih =>
      rw [List.flatMap_cons]
      exact encloses_append (encloses_element different (each content (.head _)))
        (ih fun other member => each other (.tail _ member))

/-! ### Elements of a text -/

theorem content_closed {content : List Char} (inside : Encloses tag content) (rest : List Char) :
    content? tag.name.toList (content ++ (closing tag ++ rest)) = some (content, rest) := by
  induction content with
  | nil =>
      have closed := after_closing tag rest
      rw [closing, List.cons_append] at closed
      rw [List.nil_append, closing, List.cons_append, content?, closed]
  | cons character content ih =>
      rw [List.cons_append, content?, inside.1, ih inside.2]
      rfl

theorem elements_from_length (name taken rest : List Char) :
    elementsFrom name taken.length (taken ++ rest) = elementsFrom name 0 rest := by
  induction taken with
  | nil => rfl
  | cons character taken ih => simpa [elementsFrom] using ih

/-- The first element of a text that starts with one. -/
theorem elements_element {content : List Char} (inside : Encloses tag content) (rest : List Char) :
    elements tag.name (element tag content ++ rest) = content :: elements tag.name rest := by
  obtain ⟨body, whole⟩ : ∃ body, element tag content = '<' :: body := ⟨_, rfl⟩
  have here : elementHere? tag.name.toList ('<' :: (body ++ rest)) = some (content, rest) := by
    rw [← List.cons_append, ← whole, element, List.append_assoc, List.append_assoc, elementHere?,
      after_opening, Option.bind_some, content_closed inside]
  have skipped : (body ++ rest).length - rest.length = body.length := by simp
  rw [elements, whole, List.cons_append, elementsFrom, here]
  dsimp only
  rw [skipped, elements_from_length]
  rfl

/-- The contents of elements that stand one after the other. -/
theorem elements_of_elements {contents : List (List Char)}
    (each : ∀ content ∈ contents, Encloses tag content) :
    elements tag.name (contents.flatMap (element tag)) = contents := by
  induction contents with
  | nil => rfl
  | cons content contents ih =>
      rw [List.flatMap_cons, elements_element (each content (.head _)),
        ih fun other member => each other (.tail _ member)]

theorem after_word_before {word text : List Char} (noTag : '<' ∉ word) (rest : List Char)
    (absent : word.isPrefixOf (text.map Char.toLower) = false) :
    afterWord? word (text ++ '<' :: rest) = none := by
  induction word generalizing text with
  | nil => simp at absent
  | cons letter word ih =>
      cases text with
      | nil =>
          have different : Char.toLower '<' ≠ letter := fun same => noTag (same ▸ .head _)
          rw [List.nil_append, afterWord?, if_neg different]
      | cons character text =>
          rw [List.cons_append, afterWord?]
          split
          next same =>
            refine ih (fun member => noTag (.tail _ member)) ?_
            simpa [List.isPrefixOf, same] using absent
          next => rfl

theorem element_here_before {before : List Char} (nonempty : before ≠ []) (rest : List Char)
    (absent : ('<' :: tag.name.toList).isPrefixOf (before.map Char.toLower) = false) :
    elementHere? tag.name.toList (before ++ '<' :: rest) = none := by
  obtain ⟨character, more, rfl⟩ := List.exists_cons_of_ne_nil nonempty
  have name : afterWord? ('<' :: tag.name.toList) (character :: more ++ '<' :: rest) = none := by
    rw [List.cons_append, afterWord?]
    split
    next same =>
      refine after_word_before (fun member => (tag.name_plain _ member).2.1 rfl) rest ?_
      simpa [List.isPrefixOf, same] using absent
    next => rfl
  rw [elementHere?, afterOpening?, name]
  rfl

/-- The text before a tag has no element if no opening tag starts in it. -/
theorem elements_after {before : List Char} (rest : List Char)
    (absent : occurs ('<' :: tag.name.toList) (before.map Char.toLower) = false) :
    elements tag.name (before ++ '<' :: rest) = elements tag.name ('<' :: rest) := by
  induction before with
  | nil => rfl
  | cons character before ih =>
      rw [List.map_cons, occurs, Bool.or_eq_false_iff] at absent
      have here := element_here_before (List.cons_ne_nil character before) rest absent.1
      rw [elements, List.cons_append, elementsFrom, ← List.cons_append, here]
      exact ih absent.2

/-! ### Texts of cells -/

theorem decode_escape_char (character : Char) (rest : List Char) :
    decodeFrom 0 (escapeChar character ++ rest) = character :: decodeFrom 0 rest := by
  unfold escapeChar
  split
  next same =>
    subst same
    rfl
  next notAmpersand =>
    split
    next same =>
      subst same
      rfl
    next =>
      split
      next same =>
        subst same
        rfl
      next =>
        rw [List.singleton_append, decodeFrom, if_neg notAmpersand]

theorem decode_escape (text : List Char) : decodeEntities (escape text) = text := by
  rw [decodeEntities]
  induction text with
  | nil => rfl
  | cons character text ih => rw [escape, List.flatMap_cons, decode_escape_char, ← escape, ih]

theorem no_angle_escape (text : List Char) : '<' ∉ escape text := by
  intro member
  obtain ⟨character, -, inside⟩ := List.mem_flatMap.mp member
  unfold escapeChar at inside
  split_ifs at inside with isAmpersand isLess isGreater
  · revert inside; decide
  · revert inside; decide
  · revert inside; decide
  · exact isLess (List.mem_singleton.mp inside).symm

theorem pieces_length (taken rest : List Char) :
    piecesFrom taken.length (taken ++ rest) = piecesFrom 0 rest := by
  induction taken with
  | nil => rfl
  | cons character taken ih => simpa [piecesFrom] using ih

theorem pieces_tag {inside : List Char} (noAngle : '>' ∉ inside) (rest : List Char) :
    piecesFrom 0 ('<' :: (inside ++ '>' :: rest)) = [] :: piecesFrom 0 rest := by
  have name : (inside ++ '>' :: rest).takeWhile (· ≠ '>') = inside := by
    rw [List.takeWhile_append_of_pos fun character member => ?_]
    · simp
    · exact decide_eq_true fun same => noAngle (same ▸ member)
  have length : tagLength? ('<' :: (inside ++ '>' :: rest)) = some (inside.length + 2) := by
    simp only [tagLength?, name]
    rw [if_neg (by simp)]
  have whole : inside ++ '>' :: rest = (inside ++ ['>']) ++ rest := by simp
  rw [piecesFrom, length, whole]
  dsimp only
  rw [show inside.length + 2 - 1 = (inside ++ ['>']).length by simp, pieces_length]

theorem pieces_text {text : List Char} (noTag : '<' ∉ text) {rest piece : List Char}
    {pieces : List (List Char)} (found : piecesFrom 0 rest = piece :: pieces) :
    piecesFrom 0 (text ++ rest) = (text ++ piece) :: pieces := by
  induction text with
  | nil => exact found
  | cons character text ih =>
      have different : character ≠ '<' := fun same => noTag (same ▸ .head _)
      have noLength : tagLength? (character :: (text ++ rest)) = none := by
        simp [tagLength?, different]
      rw [List.cons_append, piecesFrom, noLength, ih fun member => noTag (.tail _ member)]
      rfl

def IsBare (text : List Char) : Prop :=
  ∃ pieces, piecesFrom 0 text = [] :: pieces ∧ ∀ piece ∈ pieces, piece = []

theorem bare_nil : IsBare [] := ⟨[], rfl, nofun⟩

theorem no_closing_angle_name (tag : Tag) : '>' ∉ '/' :: tag.name.toList := by
  cases tag <;> decide

theorem bare_closing (tag : Tag) {rest : List Char} (bare : IsBare rest) :
    IsBare (closing tag ++ rest) := by
  obtain ⟨pieces, found, each⟩ := bare
  refine ⟨[] :: pieces, ?_, List.forall_mem_cons.mpr ⟨rfl, each⟩⟩
  have tagged := pieces_tag (no_closing_angle_name tag) rest
  rw [found] at tagged
  simpa [closing] using tagged

theorem cell_text_opening (tag : Tag) (rest : List Char) :
    cellText (opening tag ++ rest) = cellText rest := by
  have noAngle : '>' ∉ tag.name.toList := fun member =>
    no_closing_angle_name tag (.tail _ member)
  have whole : opening tag ++ rest = '<' :: (tag.name.toList ++ '>' :: rest) := by simp [opening]
  rw [cellText, whole, pieces_tag noAngle, List.flatMap_cons]
  rfl

theorem cell_text_escape (text : List Char) {rest : List Char} (bare : IsBare rest) :
    cellText (escape text ++ rest) = trim text := by
  obtain ⟨pieces, found, each⟩ := bare
  have nothing : pieces.flatMap (fun piece => trim (decodeEntities piece)) = [] :=
    List.flatMap_eq_nil_iff.mpr fun piece member => by rw [each piece member]; rfl
  rw [cellText, pieces_text (no_angle_escape text) found, List.flatMap_cons, nothing,
    List.append_nil, List.append_nil, decode_escape]

/-- The text of a cell is what stands inside of its wrappers. -/
theorem cell_text_wrap (wrappers : List Wrapper) (text : List Char) {rest : List Char}
    (bare : IsBare rest) : cellText (wrap wrappers (escape text) ++ rest) = trim text := by
  induction wrappers generalizing rest with
  | nil => exact cell_text_escape text bare
  | cons wrapper wrappers ih =>
      rw [wrap, List.foldr_cons, ← wrap, element, List.append_assoc, List.append_assoc,
        cell_text_opening]
      exact ih (bare_closing wrapper.tag bare)

theorem cell_text_content (cell : Cell) : cellText cell.content = trim cell.text.toList := by
  have read := cell_text_wrap cell.wrappers cell.text.toList bare_nil
  rwa [List.append_nil] at read

/-! ### Rows and tables -/

theorem encloses_wrap (different : ∀ wrapper : Wrapper, tag ≠ wrapper.tag) (wrappers : List Wrapper)
    {content : List Char} (inside : Encloses tag content) :
    Encloses tag (wrap wrappers content) := by
  induction wrappers with
  | nil => exact inside
  | cons wrapper wrappers ih => exact encloses_element (different wrapper) ih

/-- No text of a cell ends an element around the cell. -/
theorem encloses_content (different : ∀ wrapper : Wrapper, tag ≠ wrapper.tag) (cell : Cell) :
    Encloses tag cell.content :=
  encloses_wrap different cell.wrappers (encloses_text (no_angle_escape cell.text.toList))

theorem encloses_row_content (different : ∀ wrapper : Wrapper, tag ≠ wrapper.tag) {other : Tag}
    (apart : tag ≠ other) (cells : List Cell) : Encloses tag (rowContent other cells) := by
  refine encloses_elements apart fun content member => ?_
  obtain ⟨cell, -, rfl⟩ := List.mem_map.mp member
  exact encloses_content different cell

theorem not_wrapper_cell (wrapper : Wrapper) : Tag.cell ≠ wrapper.tag := by
  cases wrapper <;> decide

theorem not_wrapper_row (wrapper : Wrapper) : Tag.row ≠ wrapper.tag := by
  cases wrapper <;> decide

theorem not_wrapper_table (wrapper : Wrapper) : Tag.table ≠ wrapper.tag := by
  cases wrapper <;> decide

theorem cells_of_row (row : Row) : elements Tag.cell.name row.content =
    (row.name :: row.default :: row.description :: row.further).map Cell.content := by
  refine elements_of_elements fun content member => ?_
  obtain ⟨cell, -, rfl⟩ := List.mem_map.mp member
  exact encloses_content not_wrapper_cell cell

theorem row_of_content {row : Row} (trimmed : row.IsTrimmed) : row? row.content = some row.entry := by
  have text (cell : Cell) (member : cell ∈ [row.name, row.default, row.description]) :
      String.ofList (cellText cell.content) = cell.text := by
    rw [cell_text_content, trim_of_is_trimmed (trimmed cell member), String.ofList_toList]
  have cells := cells_of_row row
  simp only [Tag.name] at cells
  rw [row?, cells]
  simp only [List.map_cons, text row.name (by simp), text row.default (by simp),
    text row.description (by simp)]
  rfl

theorem entries_of_rows {rows : List Row} (trimmed : ∀ row ∈ rows, row.IsTrimmed) :
    (rows.map Row.content).filterMap row? = rows.map Row.entry := by
  induction rows with
  | nil => rfl
  | cons row rows ih =>
      rw [List.map_cons, List.filterMap_cons_some (row_of_content (trimmed row (.head _))),
        ih fun other member => trimmed other (.tail _ member), List.map_cons]

/-- A row of headings and a row for each input stand in a table as they are. -/
theorem encloses_row (different : ∀ wrapper : Wrapper, tag ≠ wrapper.tag) (notHeading : tag ≠ .heading)
    (notCell : tag ≠ .cell) (headings : List Cell) (rows : List Row) :
    ∀ content ∈ rowContent .heading headings :: rows.map Row.content, Encloses tag content := by
  refine List.forall_mem_cons.mpr ⟨encloses_row_content different notHeading headings, ?_⟩
  intro content member
  obtain ⟨row, -, rfl⟩ := List.mem_map.mp member
  exact encloses_row_content different notCell _

theorem rows_of_table (headings : List Cell) (rows : List Row) :
    elements Tag.row.name
        ((rowContent .heading headings :: rows.map Row.content).flatMap (element .row)) =
      rowContent .heading headings :: rows.map Row.content :=
  elements_of_elements (encloses_row not_wrapper_row (by decide) (by decide) headings rows)

/-- The first table of a page, wherever it stands. -/
theorem first_table_of_page {before : List Char} (after : List Char) (headings : List Cell)
    (rows : List Row) (noTable : occurs "<table".toList (before.map Char.toLower) = false) :
    (elements Tag.table.name (before ++ (tableText headings rows ++ after))).head? =
      some ((rowContent .heading headings :: rows.map Row.content).flatMap (element .row)) := by
  have inside : Encloses .table
      ((rowContent .heading headings :: rows.map Row.content).flatMap (element .row)) :=
    encloses_elements (by decide)
      (encloses_row not_wrapper_table (by decide) (by decide) headings rows)
  have name : '<' :: Tag.table.name.toList = "<table".toList := rfl
  obtain ⟨body, whole⟩ : ∃ body, tableText headings rows = '<' :: body := ⟨_, rfl⟩
  rw [whole, List.cons_append, elements_after _ (name ▸ noTable), ← List.cons_append, ← whole,
    tableText, elements_element inside, List.head?_cons]

/-- A table that is rendered into a page is read back, whatever its texts hold and whatever follows it, if
no table starts before it. -/
theorem table_of_page (before after : List Char) (headings : List Cell) (rows : List Row)
    (noTable : occurs "<table".toList (before.map Char.toLower) = false)
    (distinct : Entries.Distinct (rows.map Row.entry))
    (trimmed : ∀ row ∈ rows, row.IsTrimmed) :
    table? (before ++ (tableText headings rows ++ after)) = some (rows.map Row.entry) := by
  have first := first_table_of_page after headings rows noTable
  have contents := rows_of_table headings rows
  simp only [Tag.name] at first contents
  rw [table?, first, Option.map_some, contents, List.drop_succ_cons, List.drop_zero,
    entries_of_rows trimmed, Entries.of_list_of_distinct distinct]

def hostileRows : List Row :=
  [⟨⟨[.paragraph, .code], "vis"⟩, ⟨[], "'&lt;</td>'"⟩, ⟨[.bold], "a\n</table> & <b>"⟩, []⟩,
    ⟨⟨[], "field"⟩, ⟨[], ""⟩, ⟨[.code], "&amp;amp; \"x\""⟩, [⟨[], " <tr>"⟩, ⟨[.bold], ""⟩]⟩]

theorem table_of_page_of_hostile :
    occurs "<table".toList ("<h1>&lt;table&gt; < <TABL</h1><".toList.map Char.toLower) = false ∧
      Entries.Distinct (hostileRows.map Row.entry) ∧ (∀ row ∈ hostileRows, row.IsTrimmed) ∧
      table? ("<h1>&lt;table&gt; < <TABL</h1><".toList ++
          (tableText [⟨[], "Parameter <td>"⟩] hostileRows ++ "<table></table>".toList)) =
        some (hostileRows.map Row.entry) := by
  have noTable : occurs "<table".toList ("<h1>&lt;table&gt; < <TABL</h1><".toList.map Char.toLower) =
      false := by decide
  have distinct : Entries.Distinct (hostileRows.map Row.entry) := by decide
  have trimmed : ∀ row ∈ hostileRows, row.IsTrimmed := by decide
  exact ⟨noTable, distinct, trimmed, table_of_page _ _ _ hostileRows noTable distinct trimmed⟩

end TaskCab.Page
