import Mathlib.Algebra.Order.BigOperators.Group.List
import TaskCab.Format
import TaskCab.Proofs.Json.Printed
import TaskCab.Proofs.Yaml.QuotedScalar
import TaskCab.Reference.Table

/-!
# Documents with descriptions filled in

A document takes a description where it has none and the table has one. Both formats write a description in
quotes, and an empty one as its quotes alone, so that the text of a document grows with what is filled in.
-/

namespace TaskCab

theorem flat_map_pos {text : String} (nonempty : text ≠ "") {escape : Char → List Char}
    (written : ∀ character, escape character ≠ []) : 0 < (text.toList.flatMap escape).length := by
  rw [List.length_pos_iff]
  cases characters : text.toList with
  | nil => exact absurd (String.toList_eq_nil_iff.mp characters) nonempty
  | cons character rest => simp [written]

namespace CabDocument

theorem missing_info_iff (table : ReferenceTable) (name : String) (record : InputRecord)
    (info : String) :
    missingInfo? table name record = some info ↔
      record.info = "" ∧ info ≠ "" ∧
        ∃ reference, Entries.get? name table = some reference ∧ reference.description = info := by
  unfold missingInfo?
  constructor
  · intro found
    split at found
    next noInfo =>
      split at found
      next reference known =>
        split at found
        next => simp at found
        next described =>
          obtain rfl := Option.some.inj found
          exact ⟨by simpa using noInfo, by simpa using described, reference, known, rfl⟩
      next => simp at found
    next => simp at found
  · rintro ⟨noInfo, described, reference, known, rfl⟩
    simp [noInfo, known, described]

theorem fixed_of_fix {document fixed : CabDocument} {table : ReferenceTable} {names : List String}
    (fixes : document.fix? table = some (fixed, names)) :
    document.filled table = fixed ∧ document.fillable table = names := by
  simp only [fix?] at fixes
  split at fixes
  next => simp at fixes
  next => exact Prod.mk.inj (Option.some.inj fixes)

theorem keys_filled (document : CabDocument) (table : ReferenceTable) :
    Entries.keys (document.filled table).inputs = Entries.keys document.inputs := by
  simp [filled, Entries.keys]

theorem inputs_not_empty {document : CabDocument} {table : ReferenceTable}
    (fills : document.fillable table ≠ []) : document.inputs.isEmpty = false := by
  obtain ⟨name, member⟩ := List.exists_mem_of_ne_nil _ fills
  obtain ⟨entry, inFilter, -⟩ := List.mem_map.mp member
  have inInputs := List.mem_of_mem_filter inFilter
  exact List.isEmpty_eq_false_iff.mpr (List.ne_nil_of_mem inInputs)

/-- Whether the text of a record, which has some length, is longer with a description than without. -/
def Grows (length : String → InputRecord → Nat) : Prop :=
  ∀ name record info, record.info = "" → info ≠ "" →
    length name record < length name { record with info := info }

/-- The texts of all records together are longer when a description has been filled in. -/
theorem sum_filled_lt {length : String → InputRecord → Nat} (grows : Grows length)
    {document : CabDocument} {table : ReferenceTable} (fills : document.fillable table ≠ []) :
    (document.inputs.map fun entry => length entry.1 entry.2).sum <
      ((document.filled table).inputs.map fun entry => length entry.1 entry.2).sum := by
  have each (entry : String × InputRecord) :
      (missingInfo? table entry.1 entry.2).isSome = true →
        length entry.1 entry.2 < length entry.1 (filledRecord table entry.1 entry.2) := by
    intro missing
    obtain ⟨info, found⟩ := Option.isSome_iff_exists.mp missing
    obtain ⟨noInfo, described, -⟩ := (missing_info_iff table entry.1 entry.2 info).mp found
    rw [filledRecord, found]
    exact grows entry.1 entry.2 info noInfo described
  have kept (entry : String × InputRecord) :
      ¬(missingInfo? table entry.1 entry.2).isSome = true →
        filledRecord table entry.1 entry.2 = entry.2 := by
    intro nothing
    rw [filledRecord, Option.not_isSome_iff_eq_none.mp nothing]
  rw [filled, List.map_map]
  apply List.sum_lt_sum
  · intro entry _
    by_cases missing : (missingInfo? table entry.1 entry.2).isSome = true
    · exact (each entry missing).le
    · exact (congrArg (length entry.1) (kept entry missing)).ge
  · obtain ⟨name, member⟩ := List.exists_mem_of_ne_nil _ fills
    obtain ⟨entry, inFilter, -⟩ := List.mem_map.mp member
    obtain ⟨inInputs, missing⟩ := List.mem_filter.mp inFilter
    exact ⟨entry, inInputs, each entry missing⟩

end CabDocument

/-! ## YAML -/

namespace Yaml

theorem length_double_quoted_lt {info : String} (described : info ≠ "") :
    (doubleQuoted "".toList).length < (doubleQuoted info.toList).length := by
  have longer := flat_map_pos described escape_char_ne_nil
  simp only [doubleQuoted, List.length_cons, List.length_append]
  simpa using longer

theorem unlines_append (first rest : List (List Char)) :
    unlines (first ++ rest) = unlines first ++ unlines rest := List.flatMap_append

theorem unlines_cons (text : List Char) (rest : List (List Char)) :
    unlines (text :: rest) = text ++ ['\n'] ++ unlines rest := rfl

theorem record_grows :
    CabDocument.Grows fun name record => (unlines (recordLines 6 name record)).length := by
  intro name record info noInfo described
  have longer := length_double_quoted_lt described
  simp only [recordLines, unlines, noInfo, List.flatMap_append, List.flatMap_cons,
    List.flatMap_nil, List.length_append, line]
  omega

theorem length_document_lt {document : CabDocument} {table : ReferenceTable}
    (fills : document.fillable table ≠ []) :
    (Yaml.document document).length < (Yaml.document (document.filled table)).length := by
  have longer := CabDocument.sum_filled_lt record_grows fills
  have inputs : document.inputs.isEmpty = false := CabDocument.inputs_not_empty fills
  have filled : (document.filled table).inputs.isEmpty = false := by
    simpa [CabDocument.filled] using inputs
  have sections (records : Records) (isNot : records.isEmpty = false) :
      (unlines (sectionLines "inputs" records)).length =
        (unlines [line 4 ("inputs".toList ++ [':'])]).length +
          (records.map fun entry => (unlines (recordLines 6 entry.1 entry.2)).length).sum := by
    rw [sectionLines, isNot, if_neg Bool.false_ne_true, unlines_cons, List.length_append]
    simp [unlines, List.flatMap_assoc, List.length_flatMap]
  have name : (document.filled table).name = document.name := rfl
  have outputs : (document.filled table).outputs = document.outputs := rfl
  simp only [Yaml.document, documentLines, String.length_ofList, List.cons_append, unlines_cons,
    unlines_append, List.length_append, sections _ inputs, sections _ filled, name, outputs]
  omega

end Yaml

/-! ## JSON -/

namespace Json

theorem length_inside (layout : Layout) (level : Nat) (closing : Char) (parts : List (List Char)) :
    (inside layout level closing parts).length =
      (inside layout level closing (parts.map fun _ => [])).length + (parts.map List.length).sum := by
  induction parts with
  | nil => simp
  | cons part rest ih =>
      cases rest with
      | nil => simp [inside]; omega
      | cons next more =>
          simp only [List.map_cons] at ih
          simp [inside, ih]
          omega

theorem escape_char_ne_nil (character : Char) : escapeChar character ≠ [] := by
  unfold escapeChar
  repeat' split
  all_goals simp

theorem length_quoted_lt {info : String} (described : info ≠ "") :
    (quoted "").length < (quoted info).length := by
  have longer := flat_map_pos described escape_char_ne_nil
  simp only [quoted, List.length_cons, List.length_append]
  simpa using longer

theorem render_members_eq_map (layout : Layout) (level : Nat) (members : List (String × Json)) :
    renderMembers layout level members = members.map fun (name, value) =>
      quoted name ++ colon layout ++ render layout level value := by
  induction members with
  | nil => rfl
  | cons member rest ih => rw [renderMembers, ih, List.map_cons]

theorem record_grows (layout : Layout) (level : Nat) :
    CabDocument.Grows fun name record =>
      (quoted name ++ colon layout ++ render layout level (Package.recordToJson record)).length := by
  intro name record info noInfo described
  have longer := length_quoted_lt described
  simp only [Package.recordToJson, render, renderMembers, enclose_eq, inside, noInfo,
    List.length_append, List.length_cons]
  omega

theorem length_records_lt (layout : Layout) (level : Nat) {document : CabDocument}
    {table : ReferenceTable} (fills : document.fillable table ≠ []) :
    (render layout level (Package.recordsToJson document.inputs)).length <
      (render layout level (Package.recordsToJson (document.filled table).inputs)).length := by
  have longer := CabDocument.sum_filled_lt (record_grows layout (level + 1)) fills
  have sameNumber : (document.filled table).inputs.length = document.inputs.length := by
    simp [CabDocument.filled]
  have length (records : Records) :
      (render layout level (Package.recordsToJson records)).length =
        (inside layout level '\x7d' (List.replicate records.length [])).length +
          (records.map fun entry => (quoted entry.1 ++ colon layout ++
            render layout (level + 1) (Package.recordToJson entry.2)).length).sum + 1 := by
    rw [Package.recordsToJson, render, enclose_eq, List.length_cons, length_inside,
      render_members_eq_map]
    simp [List.map_map, Function.comp_def, List.map_const']
  rw [length, length, sameNumber]
  omega

theorem length_to_json_lt {document : CabDocument} {table : ReferenceTable}
    (fills : document.fillable table ≠ []) :
    document.toJson.length < (document.filled table).toJson.length := by
  have longer := length_records_lt .indented (0 + 1 + 1 + 1) fills
  have name : (document.filled table).name = document.name := rfl
  have outputs : (document.filled table).outputs = document.outputs := rfl
  simp only [CabDocument.toJson, Package.toJson, Package.ofDocument, indented, List.map_cons,
    List.map_nil, Package.cabToJson, String.length_append, String.length_ofList, name, outputs]
  cases document.outputs with
  | none =>
      simp only [render, renderMembers, enclose_eq, inside, List.length_append, List.length_cons]
      omega
  | some records =>
      simp only [render, renderMembers, enclose_eq, inside, List.length_append, List.length_cons]
      omega

end Json

theorem CabDocument.length_render_lt (format : DocumentFormat) {document : CabDocument}
    {table : ReferenceTable} (fills : document.fillable table ≠ []) :
    (format.render document).length < (format.render (document.filled table)).length := by
  cases format with
  | yaml => exact Yaml.length_document_lt fills
  | json => exact Json.length_to_json_lt fills

end TaskCab
