import TaskCab.Proofs.Entries
import TaskCab.Proofs.Reference.Filled
import TaskCab.Proofs.Reference.OwnText
import TaskCab.Proofs.Text.Lowering
import TaskCab.Reference.Report

/-!
# Descriptions that were filled in

A description that a document took from a reference table is compared with itself in the report on that
table. The comparison looks for the lower-case form of the first fifty characters in that of the whole
text, and finds it at the start unless the fiftieth character cuts a word behind a sigma.
-/

namespace TaskCab

open Text Matching

namespace Matching

theorem occurs_iff (part text : List Char) :
    occurs part text = true ↔ part <+: text ∨ occurs part (text.drop 1) = true := by
  cases text with
  | nil => simp [occurs]
  | cons character rest => simp [occurs]

/-- A description matches itself exactly if its first fifty characters do not end in a sigma whose word
goes on behind them, or if their lower-case form comes again further on. -/
theorem matches_itself_iff (text : List Char) :
    matchesDescription text text = true ↔
      ¬CutsSigma [] (text.take 50) (text.drop 50) ∨
        occurs (lower (text.take 50)) ((lower text).drop 1) = true := by
  have whole : text.take 50 ++ text.drop 50 = text := List.take_append_drop 50 text
  rw [matchesDescription, occurs_iff, ← lower_prefix_iff, whole]

end Matching

namespace CabDocument

/-- What a name that can be filled in stands for: an input without a description, and a reference that
has one. -/
theorem mem_fillable {document : CabDocument} {table : ReferenceTable} {name : String}
    (member : name ∈ document.fillable table) :
    ∃ record reference, (name, record) ∈ document.inputs ∧
      Entries.get? name table = some reference ∧
      filledRecord table name record = { record with info := reference.description } := by
  obtain ⟨⟨input, record⟩, inFilter, same⟩ := List.mem_map.mp member
  obtain rfl : input = name := same
  obtain ⟨inInputs, missing⟩ := List.mem_filter.mp inFilter
  obtain ⟨info, found⟩ := Option.isSome_iff_exists.mp missing
  obtain ⟨-, -, reference, known, rfl⟩ := (missing_info_iff table input record info).mp found
  exact ⟨record, reference, inInputs, known, by rw [filledRecord, found]⟩

theorem row_of_input {document : CabDocument} (distinct : Entries.Distinct document.inputs)
    {name : String} {record : InputRecord} (member : (name, record) ∈ document.inputs)
    (table : ReferenceTable) :
    Entries.get? name (Report.ofTable document table).rows =
      some (.ofReference record (Entries.get? name table)) := by
  have names : Entries.Distinct (Report.ofTable document table).rows := by
    have same : Entries.keys (Report.ofTable document table).rows = Entries.keys document.inputs := by
      simp [Report.ofTable, Entries.keys]
    rw [Entries.Distinct, same]
    exact distinct
  apply Entries.get_of_mem names
  exact List.mem_map.mpr ⟨(name, record), member, rfl⟩

/-- The report on the table that descriptions were taken from compares each of them with itself. A text
matches itself exactly if its first fifty characters do not end in a sigma whose word goes on behind them,
or if their lower-case form comes again further on. -/
theorem filled_description_matches_iff (document : CabDocument)
    (distinct : Entries.Distinct document.inputs) (fetch : String → ReferenceTable)
    {fixed : CabDocument} {names : List String}
    (fixes : document.fix? (fetch document.name) = some (fixed, names)) :
    (∀ name ∈ names, ∃ reference comparison,
      Entries.get? name (fetch document.name) = some reference ∧
        Entries.get? name (Report.ofTable fixed (fetch fixed.name)).rows = some comparison ∧
        comparison.descriptionMatches? = some (matchesDescription
          (trim reference.description.toList) (trim reference.description.toList))) ∧
    ∀ text, matchesDescription text text = true ↔
      ¬CutsSigma [] (text.take 50) (text.drop 50) ∨
        occurs (lower (text.take 50)) ((lower text).drop 1) = true := by
  refine ⟨?_, matches_itself_iff⟩
  intro name member
  obtain ⟨rfl, rfl⟩ := fixed_of_fix fixes
  obtain ⟨record, reference, inInputs, known, filled⟩ := mem_fillable member
  have inFixed : (name, { record with info := reference.description }) ∈
      (document.filled (fetch document.name)).inputs := by
    rw [← filled]
    exact List.mem_map.mpr ⟨(name, record), inInputs, rfl⟩
  have distinctFixed : Entries.Distinct (document.filled (fetch document.name)).inputs := by
    rw [Entries.Distinct, keys_filled]
    exact distinct
  have row := row_of_input distinctFixed inFixed (fetch document.name)
  rw [known] at row
  exact ⟨reference, _, known, row, rfl⟩

/-- Forty-nine letters, a sigma and one more letter: the sigma is the fiftieth character. -/
def cutDescription : String := String.ofList (List.replicate 49 'a' ++ ['Σ', 'a'])

def cutTable : ReferenceTable := [("spw", ⟨"", cutDescription⟩), ("scan", ⟨"", "ΟΔΟΣ"⟩)]

def bareDocument : CabDocument :=
  ⟨"flagdata", [("spw", .make "str" none ""), ("scan", .make "str" none "")], none⟩

theorem filled_description_matches_iff_of_cut :
    ∃ fixed, bareDocument.fix? cutTable = some (fixed, ["spw", "scan"]) ∧
      (Report.ofTable fixed cutTable).rows.map (fun row => row.2.descriptionMatches?) =
        [some false, some true] ∧
      ∀ name ∈ ["spw", "scan"], ∃ reference comparison,
        Entries.get? name cutTable = some reference ∧
          Entries.get? name (Report.ofTable fixed cutTable).rows = some comparison ∧
          comparison.descriptionMatches? = some (matchesDescription
            (trim reference.description.toList) (trim reference.description.toList)) := by
  have fixes : bareDocument.fix? cutTable = some (bareDocument.filled cutTable, ["spw", "scan"]) := by
    rfl
  have distinct : Entries.Distinct bareDocument.inputs := by decide
  exact ⟨_, fixes, by decide +kernel,
    (filled_description_matches_iff bareDocument distinct (fun _ => cutTable) fixes).1⟩

end CabDocument

end TaskCab
