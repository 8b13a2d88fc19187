import TaskCab.Proofs.Value.NumberText
import TaskCab.Proofs.Yaml.Layout

/-!
# What the layout of a document keeps

No line of a document holds a line feed, so that the text of a document has its lines, and these have the
names, types, flags and descriptions of all records in order and the shapes of their defaults.
-/

namespace TaskCab.Yaml

open TaskCab.Text

private theorem no_newline_of_graphic {text : List Char}
    (graphic : ∀ character ∈ text, IsGraphic character) : '\n' ∉ text := by
  intro member
  exact absurd (graphic _ member) (by decide)

theorem float_text_no_newline (number : Binary64) : '\n' ∉ floatText number := by
  have graphic := Value.graphic_of_number_text (Value.float_is_number_text number)
  apply no_newline_of_graphic
  unfold floatText
  split
  · decide
  split
  · split <;> decide
  · dsimp only
    split
    · exact graphic
    · intro character member
      rcases List.mem_append.mp member with front | back
      · rcases List.mem_append.mp front with mantissa | point
        · exact graphic character (List.takeWhile_subset _ mantissa)
        · exact (by decide : ∀ c ∈ ['.', '0'], IsGraphic c) character point
      · exact graphic character (List.mem_of_mem_drop back)

theorem scalar_text_no_newline (value : Value) : '\n' ∉ scalarText value := by
  cases value with
  | null => decide
  | bool truth => cases truth <;> decide
  | int word =>
      exact no_newline_of_graphic
        (Value.graphic_of_number_text (Value.int_is_number_text word.toInt))
  | float number => exact float_text_no_newline number
  | str text => exact scalar_no_newline (scalar_form text.toList)
  | list items => simp [scalarText]
  | map entries => simp [scalarText]

def OneLine (lines : List (List Char)) : Prop := ∀ text ∈ lines, '\n' ∉ text

theorem line_no_newline {text : List Char} (oneLine : '\n' ∉ text) (indent : Nat) :
    '\n' ∉ line indent text := by
  intro member
  rcases List.mem_append.mp member with spaces | words
  · exact absurd (List.eq_of_mem_replicate spaces) (by decide)
  · exact oneLine words

theorem key_no_newline (name : String) (tail : List Char) (oneLine : '\n' ∉ tail) :
    '\n' ∉ key name ++ tail := by
  have noName := scalar_no_newline (scalar_form name.toList)
  simp [key, noName, oneLine]

mutual

theorem entry_lines_one_line (indent : Nat) (name : String) (value : Value) :
    OneLine (entryLines indent name value) := by
  have keyLine : '\n' ∉ line indent (key name) :=
    line_no_newline (by simpa using key_no_newline name [] (by simp)) indent
  rcases value_cases value with ⟨item, items, rfl⟩ | ⟨entry, entries, rfl⟩ | short
  · exact List.forall_mem_cons.mpr ⟨keyLine, items_lines_one_line indent (item :: items)⟩
  · exact List.forall_mem_cons.mpr ⟨keyLine, entries_lines_one_line (indent + 2) (entry :: entries)⟩
  · rw [short.entry]
    have text : '\n' ∉ ' ' :: scalarText value := by simpa using scalar_text_no_newline value
    exact List.forall_mem_singleton.mpr (line_no_newline (key_no_newline name _ text) indent)
termination_by sizeOf value

theorem entries_lines_one_line (indent : Nat) (entries : List (String × Value)) :
    OneLine (entriesLines indent entries) := by
  match entries with
  | [] => exact fun _ member => absurd member List.not_mem_nil
  | (name, value) :: rest =>
      rw [entriesLines]
      exact List.forall_mem_append.mpr
        ⟨entry_lines_one_line indent name value, entries_lines_one_line indent rest⟩
termination_by sizeOf entries

theorem items_lines_one_line (indent : Nat) (items : List Value) :
    OneLine (itemLines indent items) := by
  match items with
  | [] => exact fun _ member => absurd member List.not_mem_nil
  | item :: rest =>
      rw [itemLines]
      exact List.forall_mem_append.mpr
        ⟨item_lines_one_line indent item, items_lines_one_line indent rest⟩
termination_by sizeOf items

theorem item_lines_one_line (indent : Nat) (value : Value) :
    OneLine (oneItemLines indent value) := by
  have dash : '\n' ∉ line indent ['-'] := line_no_newline (by simp) indent
  rcases value_cases value with ⟨item, items, rfl⟩ | ⟨entry, entries, rfl⟩ | short
  · exact List.forall_mem_cons.mpr ⟨dash, items_lines_one_line (indent + 2) (item :: items)⟩
  · exact List.forall_mem_cons.mpr ⟨dash, entries_lines_one_line (indent + 2) (entry :: entries)⟩
  · rw [short.item]
    have text : '\n' ∉ '-' :: ' ' :: scalarText value := by
      simpa using scalar_text_no_newline value
    exact List.forall_mem_singleton.mpr (line_no_newline text indent)
termination_by sizeOf value

end

theorem newline_ends {left right after before : List Char} (noNewline : '\n' ∉ left)
    (noOther : '\n' ∉ right) (same : left ++ '\n' :: after = right ++ '\n' :: before) :
    left = right ∧ after = before := by
  induction left generalizing right with
  | nil =>
      cases right with
      | nil => simpa using same
      | cons character rest =>
          obtain ⟨rfl, -⟩ := List.cons.inj same
          exact absurd (List.mem_cons_self ..) noOther
  | cons character rest ih =>
      cases right with
      | nil =>
          obtain ⟨rfl, -⟩ := List.cons.inj same
          exact absurd (List.mem_cons_self ..) noNewline
      | cons other more =>
          obtain ⟨rfl, later⟩ := List.cons.inj same
          obtain ⟨rfl, ends⟩ := ih (fun member => noNewline (.tail _ member))
            (fun member => noOther (.tail _ member)) later
          exact ⟨rfl, ends⟩

theorem unlines_injective {left right : List (List Char)} (oneLine : OneLine left)
    (oneOther : OneLine right) (same : unlines left = unlines right) : left = right := by
  induction left generalizing right with
  | nil =>
      cases right with
      | nil => rfl
      | cons text rest => simp [unlines] at same
  | cons text rest ih =>
      cases right with
      | nil => simp [unlines] at same
      | cons words more =>
          obtain ⟨noNewline, later⟩ := List.forall_mem_cons.mp oneLine
          obtain ⟨noOther, others⟩ := List.forall_mem_cons.mp oneOther
          have ends : text ++ '\n' :: unlines rest = words ++ '\n' :: unlines more := by
            simpa [unlines] using same
          obtain ⟨rfl, tails⟩ := newline_ends noNewline noOther ends
          rw [ih later others tails]

def defaultValue : Option SourceValue → Value
  | none => .null
  | some default => default.toValue

theorem default_lines_eq (indent : Nat) (default : Option SourceValue) :
    defaultLines indent default = entryLines indent "default" (defaultValue default) := by
  have name : key "default" = "default:".toList := by decide +kernel
  match default with
  | none => simp [defaultLines, defaultValue, entryLines, name, scalarText]
  | some (.decoded value) => rfl
  | some (.verbatim text) =>
      simp [defaultLines, defaultValue, SourceValue.toValue, entryLines, name, scalarText]

/-- What can be seen of a record in the text of a document. -/
structure RecordView where
  name : List Char
  dtype : List Char
  default : Shape
  required : Bool
  info : String

def recordView (name : String) (record : InputRecord) : RecordView :=
  ⟨scalar name.toList, scalar record.dtype.toList, shape (defaultValue record.default),
    record.required, record.info⟩

def recordViews (records : Records) : List RecordView :=
  records.map fun (name, record) => recordView name record

structure DocumentView where
  name : List Char
  inputs : List RecordView
  outputs : Option (List RecordView)

def documentView (document : CabDocument) : DocumentView :=
  ⟨scalar document.name.toList, recordViews document.inputs, document.outputs.map recordViews⟩

def IsLabel (label : String) : Bool := label.toList.head?.any fun first => first ≠ ' ' && first ≠ '-'

theorem label_line (label : String) (isLabel : IsLabel label = true) (rest : List Char) :
    IsSolid (label.toList ++ rest) ∧ ¬IsItemText (label.toList ++ rest) := by
  unfold IsLabel at isLabel
  cases text : label.toList with
  | nil => simp [text] at isLabel
  | cons first more =>
      have both : first ≠ ' ' ∧ first ≠ '-' := by simpa [text] using isLabel
      constructor
      · exact ⟨first, more ++ rest, rfl, both.1⟩
      · rintro (dash | ⟨after, item⟩)
        · exact both.2 (List.cons.inj dash).1
        · exact both.2 (List.cons.inj item).1

theorem label_lines (label : String) (isLabel : IsLabel label = true) {indent other : Nat}
    {text words : List Char}
    (same : line indent (label.toList ++ text) = line other (label.toList ++ words)) :
    text = words := by
  have texts := (line_injective (label_line label isLabel text).1 (label_line label isLabel words).1 same).2
  exact List.append_cancel_left texts

def lastLines (record : InputRecord) : List (List Char) :=
  [line 8 ("required: ".toList ++ (if record.required then "true" else "false").toList),
    line 8 ("info: ".toList ++ doubleQuoted record.info.toList)]

theorem record_lines_eq (name : String) (record : InputRecord) :
    recordLines 6 name record =
      line 6 (key name) :: line 8 ("dtype: ".toList ++ scalar record.dtype.toList) ::
        (entryLines 8 "default" (defaultValue record.default) ++ lastLines record) := by
  rw [recordLines, default_lines_eq]
  rfl

theorem items_end_last_lines (record : InputRecord) (after : List (List Char)) :
    ItemsEnd 8 (lastLines record ++ after) := by
  have isLabel : IsLabel "required: " = true := by decide
  obtain ⟨solid, notItem⟩ := label_line "required: " isLabel (if record.required then "true" else "false").toList
  exact .inr ⟨8, _, _, rfl, solid, .inr ⟨rfl, notItem⟩⟩

theorem last_lines_layout {record read : InputRecord} {after before : List (List Char)}
    (same : lastLines record ++ after = lastLines read ++ before) :
    record.required = read.required ∧ record.info = read.info ∧ after = before := by
  obtain ⟨first, later⟩ := List.cons.inj same
  obtain ⟨second, rest⟩ := List.cons.inj later
  have flags := label_lines "required: " (by decide) first
  have infos := label_lines "info: " (by decide) second
  refine ⟨?_, String.toList_inj.mp (double_quoted_injective infos), rest⟩
  cases required : record.required <;> cases other : read.required <;>
    simp [required, other] at flags ⊢

theorem record_layout {name other : String} {record read : InputRecord}
    {after before : List (List Char)}
    (same : recordLines 6 name record ++ after = recordLines 6 other read ++ before) :
    recordView name record = recordView other read ∧ after = before := by
  rw [record_lines_eq, record_lines_eq] at same
  obtain ⟨first, later⟩ := List.cons.inj same
  obtain ⟨second, rest⟩ := List.cons.inj later
  have solid (text : String) : IsSolid (key text) := by simpa using solid_key text []
  have keys : key name = key other := (line_injective (solid name) (solid other) first).2
  have names : scalar name.toList = scalar other.toList := List.append_cancel_right keys
  have dtypes := label_lines "dtype: " (by decide) second
  have defaults : entryLines 8 "default" (defaultValue record.default) ++
      (lastLines record ++ after) =
        entryLines 8 "default" (defaultValue read.default) ++ (lastLines read ++ before) := by
    simpa using rest
  obtain ⟨-, shapes, last⟩ := entry_layout (items_end_last_lines record after)
    (items_end_last_lines read before) defaults
  obtain ⟨required, info, afters⟩ := last_lines_layout last
  refine ⟨?_, afters⟩
  rw [recordView, recordView, names, dtypes, shapes, required, info]

def RecordsEnd : List (List Char) → Prop := Begins fun indent _ => indent < 6

theorem records_begin (name : String) (record : InputRecord) (rest : List (List Char)) :
    ¬RecordsEnd (recordLines 6 name record ++ rest) := by
  intro ends
  rw [record_lines_eq] at ends
  have smaller := kind_of_begins ends (by simpa using solid_key name [])
  omega

theorem records_layout {records read : Records} {after before : List (List Char)}
    (ends : RecordsEnd after) (isEnd : RecordsEnd before)
    (same : (records.flatMap fun (name, record) => recordLines 6 name record) ++ after =
      (read.flatMap fun (name, record) => recordLines 6 name record) ++ before) :
    recordViews records = recordViews read ∧ after = before := by
  induction records generalizing read with
  | nil =>
      cases read with
      | nil => exact ⟨rfl, same⟩
      | cons other more =>
          simp only [List.flatMap_nil, List.nil_append, List.flatMap_cons, List.append_assoc] at same
          rw [same] at ends
          exact absurd ends (records_begin _ _ _)
  | cons entry rest ih =>
      cases read with
      | nil =>
          simp only [List.flatMap_nil, List.nil_append, List.flatMap_cons, List.append_assoc] at same
          rw [← same] at isEnd
          exact absurd isEnd (records_begin _ _ _)
      | cons other more =>
          simp only [List.flatMap_cons, List.append_assoc] at same
          obtain ⟨views, later⟩ := record_layout same
          obtain ⟨others, afters⟩ := ih later
          exact ⟨congrArg₂ List.cons views others, afters⟩

theorem section_layout {name : String} {records read : Records} {after before : List (List Char)}
    (isLabel : IsLabel name = true) (ends : RecordsEnd after) (isEnd : RecordsEnd before)
    (same : sectionLines name records ++ after = sectionLines name read ++ before) :
    recordViews records = recordViews read ∧ after = before := by
  unfold sectionLines at same
  cases records with
  | nil =>
      cases read with
      | nil => exact ⟨rfl, (List.cons.inj same).2⟩
      | cons other more =>
          have tails := label_lines name isLabel (List.cons.inj same).1
          simp at tails
  | cons entry more =>
      cases read with
      | nil =>
          have tails := label_lines name isLabel (List.cons.inj same).1
          simp at tails
      | cons other others => exact records_layout ends isEnd (List.cons.inj same).2

def outputLines : Option Records → List (List Char)
  | some outputs => sectionLines "outputs" outputs
  | none => []

theorem section_begins (name : String) (isLabel : IsLabel name = true) (records : Records) :
    RecordsEnd (sectionLines name records) := by
  have solid (rest : List Char) := (label_line name isLabel rest).1
  unfold sectionLines
  split
  · exact .inr ⟨4, _, [], rfl, solid _, (by decide : 4 < 6)⟩
  · exact .inr ⟨4, _, _, rfl, solid _, (by decide : 4 < 6)⟩

theorem records_end_outputs (outputs : Option Records) : RecordsEnd (outputLines outputs) := by
  cases outputs with
  | none => exact .inl rfl
  | some outputs => exact section_begins "outputs" (by decide) outputs

theorem outputs_layout {outputs read : Option Records} (same : outputLines outputs = outputLines read) :
    outputs.map recordViews = read.map recordViews := by
  have nonempty (records : Records) : sectionLines "outputs" records ≠ [] := by
    unfold sectionLines
    split <;> simp
  cases outputs with
  | none =>
      cases read with
      | none => rfl
      | some records => exact absurd same.symm (nonempty records)
  | some outputs =>
      cases read with
      | none => exact absurd same (nonempty outputs)
      | some records =>
          have whole : sectionLines "outputs" outputs ++ [] = sectionLines "outputs" records ++ [] := by
            simpa [outputLines] using same
          have views := (section_layout (by decide) (.inl rfl) (.inl rfl) whole).1
          simp [views]

theorem document_lines_eq (document : CabDocument) :
    documentLines document = "cabs:".toList :: line 2 (key document.name) ::
      (sectionLines "inputs" document.inputs ++ outputLines document.outputs) := by
  unfold documentLines outputLines
  rfl

theorem document_lines_layout {left right : CabDocument}
    (same : documentLines left = documentLines right) : documentView left = documentView right := by
  rw [document_lines_eq, document_lines_eq] at same
  obtain ⟨first, rest⟩ := List.cons.inj (List.cons.inj same).2
  have solid (text : String) : IsSolid (key text) := by simpa using solid_key text []
  have keys := (line_injective (solid left.name) (solid right.name) first).2
  have names : scalar left.name.toList = scalar right.name.toList := List.append_cancel_right keys
  obtain ⟨inputs, outputs⟩ := section_layout (by decide)
    (records_end_outputs left.outputs) (records_end_outputs right.outputs) rest
  rw [documentView, documentView, names, inputs, outputs_layout outputs]

theorem label_one_line {label : String} (oneLine : '\n' ∉ label.toList) {text : List Char}
    (oneText : '\n' ∉ text) (indent : Nat) : '\n' ∉ line indent (label.toList ++ text) := by
  apply line_no_newline
  simp [oneLine, oneText]

theorem record_lines_one_line (name : String) (record : InputRecord) :
    OneLine (recordLines 6 name record) := by
  have keyLine : '\n' ∉ line 6 (key name) :=
    line_no_newline (by simpa using key_no_newline name [] (by simp)) 6
  have dtype := scalar_no_newline (scalar_form record.dtype.toList)
  have info := scalar_no_newline (double_quoted_form record.info.toList)
  have flag : '\n' ∉ (if record.required then "true" else "false").toList := by
    split <;> decide
  rw [record_lines_eq]
  refine List.forall_mem_cons.mpr ⟨keyLine, List.forall_mem_cons.mpr
    ⟨label_one_line (by decide) dtype 8, List.forall_mem_append.mpr
      ⟨entry_lines_one_line 8 "default" _, List.forall_mem_cons.mpr
        ⟨label_one_line (by decide) flag 8, List.forall_mem_singleton.mpr
          (label_one_line (by decide) info 8)⟩⟩⟩⟩

theorem section_lines_one_line {name : String} (oneLine : '\n' ∉ name.toList) (records : Records) :
    OneLine (sectionLines name records) := by
  unfold sectionLines
  split
  · exact List.forall_mem_singleton.mpr (label_one_line oneLine (by decide) 4)
  · refine List.forall_mem_cons.mpr ⟨label_one_line oneLine (by decide) 4, ?_⟩
    intro text member
    obtain ⟨entry, -, inside⟩ := List.mem_flatMap.mp member
    exact record_lines_one_line entry.1 entry.2 text inside

theorem document_lines_one_line (document : CabDocument) : OneLine (documentLines document) := by
  have keyLine : '\n' ∉ line 2 (key document.name) :=
    line_no_newline (by simpa using key_no_newline document.name [] (by simp)) 2
  have outputs : OneLine (outputLines document.outputs) := by
    unfold outputLines
    split
    · exact section_lines_one_line (by decide) _
    · exact fun _ member => absurd member List.not_mem_nil
  rw [document_lines_eq]
  exact List.forall_mem_cons.mpr ⟨by decide, List.forall_mem_cons.mpr ⟨keyLine,
    List.forall_mem_append.mpr ⟨section_lines_one_line (by decide) _, outputs⟩⟩⟩

/-- The text of a document determines all that can be seen of the document. -/
theorem document_view_of_text (left right : CabDocument) (same : document left = document right) :
    documentView left = documentView right := by
  have texts : unlines (documentLines left) = unlines (documentLines right) :=
    String.ofList_inj.mp same
  exact document_lines_layout (unlines_injective (document_lines_one_line left)
    (document_lines_one_line right) texts)

theorem document_view_of_absent_default :
    documentView ⟨"clean", [("vis", ⟨"Any", none, false, ""⟩)], none⟩ =
      documentView ⟨"clean", [("vis", ⟨"Any", some (.decoded .null), false, ""⟩)], none⟩ :=
  document_view_of_text _ _ (by simp [document, documentLines, sectionLines, recordLines,
    default_lines_eq, defaultValue, SourceValue.toValue])

end TaskCab.Yaml
