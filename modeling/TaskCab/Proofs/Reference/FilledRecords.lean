import TaskCab.Proofs.Entries
import TaskCab.Proofs.Reference.Filled

/-!
# What filling in descriptions changes

A document takes a description for each input that has none and that the table describes. The inputs that
it fills in are the only ones that change, nothing but their descriptions changes, and no further table
fills in more unless it describes more names.
-/

namespace TaskCab

def ReferenceTable.Describes (table : ReferenceTable) (name : String) : Prop :=
  ∃ reference, Entries.get? name table = some reference ∧ reference.description ≠ ""

namespace CabDocument

variable {document : CabDocument} {table : ReferenceTable}

theorem missing_info_is_some_iff {name : String} {record : InputRecord} :
    (missingInfo? table name record).isSome = true ↔ record.info = "" ∧ table.Describes name := by
  rw [Option.isSome_iff_exists]
  constructor
  · rintro ⟨info, missing⟩
    obtain ⟨noInfo, described, reference, known, rfl⟩ :=
      (missing_info_iff table name record info).mp missing
    exact ⟨noInfo, reference, known, described⟩
  · rintro ⟨noInfo, reference, known, described⟩
    exact ⟨_, (missing_info_iff table name record _).mpr ⟨noInfo, described, reference, known, rfl⟩⟩

theorem get_filled (document : CabDocument) (table : ReferenceTable) (name : String) :
    Entries.get? name (document.filled table).inputs =
      (Entries.get? name document.inputs).map (filledRecord table name) :=
  Entries.get_map_named (filledRecord table) name document.inputs

/-- Whether an input is without a description that a table has. -/
def Lacks (document : CabDocument) (table : ReferenceTable) (name : String) : Prop :=
  ∃ record, Entries.get? name document.inputs = some record ∧ record.info = "" ∧ table.Describes name

theorem mem_fillable_iff (distinct : Entries.Distinct document.inputs) {name : String} :
    name ∈ document.fillable table ↔ document.Lacks table name := by
  constructor
  · intro member
    obtain ⟨⟨input, record⟩, inFilter, rfl⟩ := List.mem_map.mp member
    obtain ⟨inInputs, missing⟩ := List.mem_filter.mp inFilter
    exact ⟨record, Entries.get_of_mem distinct inInputs, missing_info_is_some_iff.mp missing⟩
  · rintro ⟨record, found, missing⟩
    refine List.mem_map.mpr ⟨(name, record), List.mem_filter.mpr ⟨Entries.mem_of_get found, ?_⟩, rfl⟩
    exact missing_info_is_some_iff.mpr missing

theorem filled_record_cases (table : ReferenceTable) (name : String) (record : InputRecord) :
    (record.info = "" ∧ ∃ reference, Entries.get? name table = some reference ∧
        reference.description ≠ "" ∧
        filledRecord table name record = { record with info := reference.description }) ∨
      (¬(record.info = "" ∧ table.Describes name) ∧ filledRecord table name record = record) := by
  cases missing : missingInfo? table name record with
  | some info =>
      obtain ⟨noInfo, described, reference, known, rfl⟩ :=
        (missing_info_iff table name record info).mp missing
      exact .inl ⟨noInfo, reference, known, described, by rw [filledRecord, missing]⟩
  | none =>
      right
      rw [← missing_info_is_some_iff, missing]
      exact ⟨Bool.false_ne_true, by rw [filledRecord, missing]⟩

/-- After a record was filled in, tables that describe no more names have nothing for it. -/
theorem missing_info_filled {other : ReferenceTable} {name : String}
    (covered : other.Describes name → table.Describes name) (record : InputRecord) :
    missingInfo? other name (filledRecord table name record) = none := by
  rw [← Option.not_isSome_iff_eq_none, missing_info_is_some_iff]
  rintro ⟨noInfo, describes⟩
  rcases filled_record_cases table name record with ⟨-, reference, -, described, same⟩ | ⟨notMissing, same⟩
  · rw [same] at noInfo
    exact described noInfo
  · rw [same] at noInfo
    exact notMissing ⟨noInfo, covered describes⟩

theorem fillable_filled {other : ReferenceTable}
    (covered : ∀ name, other.Describes name → table.Describes name) (document : CabDocument) :
    (document.filled table).fillable other = [] := by
  rw [fillable, List.map_eq_nil_iff, List.filter_eq_nil_iff]
  intro entry member
  obtain ⟨⟨name, record⟩, -, rfl⟩ := List.mem_map.mp member
  simp [missing_info_filled (covered name) record]

/-- What a document and a filled one have to do with each other, where `names` were filled in. -/
structure FillsMissing (table : ReferenceTable) (before after : CabDocument) (names : List String) :
    Prop where
  name : after.name = before.name
  outputs : after.outputs = before.outputs
  inputs : Entries.keys after.inputs = Entries.keys before.inputs
  inOrder : names.Sublist (Entries.keys before.inputs)
  missing : ∀ name, name ∈ names ↔ before.Lacks table name
  changed : ∀ name, name ∈ names ↔ Entries.get? name after.inputs ≠ Entries.get? name before.inputs
  filled : ∀ name ∈ names, ∃ record reference, Entries.get? name before.inputs = some record ∧
    Entries.get? name table = some reference ∧
    Entries.get? name after.inputs = some { record with info := reference.description }

theorem changed_iff_lacks (document : CabDocument) (table : ReferenceTable) (name : String) :
    document.Lacks table name ↔
      Entries.get? name (document.filled table).inputs ≠ Entries.get? name document.inputs := by
  rw [get_filled]
  cases found : Entries.get? name document.inputs with
  | none => simp [Lacks, found]
  | some record =>
      have lacks : document.Lacks table name ↔ record.info = "" ∧ table.Describes name := by
        simp [Lacks, found]
      rw [lacks, Option.map_some, ne_eq, Option.some.injEq]
      rcases filled_record_cases table name record with
        ⟨noInfo, reference, known, described, same⟩ | ⟨notMissing, same⟩
      · have differs : filledRecord table name record ≠ record := by
          intro kept
          have info := congrArg InputRecord.info (same.symm.trans kept)
          exact described (info.trans noInfo)
        exact iff_of_true ⟨noInfo, reference, known, described⟩ differs
      · exact iff_of_false notMissing (not_not_intro same)

theorem fills_missing (distinct : Entries.Distinct document.inputs) :
    FillsMissing table document (document.filled table) (document.fillable table) where
  name := rfl
  outputs := rfl
  inputs := keys_filled document table
  inOrder := (List.filter_sublist).map Prod.fst
  missing _ := mem_fillable_iff distinct
  changed name := (mem_fillable_iff distinct).trans (changed_iff_lacks document table name)
  filled := by
    intro name member
    obtain ⟨record, found, noInfo, describes⟩ := (mem_fillable_iff distinct).mp member
    rcases filled_record_cases table name record with ⟨-, reference, known, -, same⟩ | ⟨notMissing, -⟩
    · refine ⟨record, reference, found, known, ?_⟩
      rw [get_filled, found, Option.map_some, same]
    · exact absurd ⟨noInfo, describes⟩ notMissing

theorem fix_eq_none_iff : document.fix? table = none ↔ document.fillable table = [] := by
  simp [fix?]

/-- Descriptions are filled in once. The names that come back are those of the inputs without a description
that the table describes, in order; they are the ones whose records change, and those in their description
alone. Afterwards a table that describes no more names fills in nothing, and so does the same table. The
result is a copy of the document, which is there exactly if a name was filled in. -/
theorem fills_missing_once (distinct : Entries.Distinct document.inputs) (table : ReferenceTable) :
    FillsMissing table document (document.filled table) (document.fillable table) ∧
    (∀ other : ReferenceTable, (∀ name, other.Describes name → table.Describes name) →
      (document.filled table).fillable other = [] ∧ (document.filled table).fix? other = none) ∧
    (document.fix? table = none ↔ document.fillable table = []) ∧
    ∀ fixed names, document.fix? table = some (fixed, names) →
      fixed = document.filled table ∧ names = document.fillable table := by
  refine ⟨fills_missing distinct, ?_, fix_eq_none_iff, ?_⟩
  · intro other covered
    have nothing := fillable_filled covered document
    exact ⟨nothing, fix_eq_none_iff.mpr nothing⟩
  · intro fixed names fixes
    obtain ⟨same, sameNames⟩ := fixed_of_fix fixes
    exact ⟨same.symm, sameNames.symm⟩

def partDocument : CabDocument :=
  ⟨"flagdata", [("vis", .make "MS" none "Input data"), ("spw", .make "str" none ""),
    ("scan", .make "str" none "")], none⟩

def partTable : ReferenceTable :=
  [("scan", ⟨"", "Scan numbers"⟩), ("spw", ⟨"", ""⟩), ("vis", ⟨"", "Name of the data"⟩)]

theorem fills_missing_once_of_scan :
    partDocument.fillable partTable = ["scan"] ∧
      FillsMissing partTable partDocument (partDocument.filled partTable) ["scan"] ∧
      (partDocument.filled partTable).fillable [("scan", ⟨"", "Numbers of scans"⟩)] = [] := by
  have names : partDocument.fillable partTable = ["scan"] := by decide
  obtain ⟨fills, once, -, -⟩ := @fills_missing_once partDocument (by decide) partTable
  have covered : ∀ name, ReferenceTable.Describes [("scan", ⟨"", "Numbers of scans"⟩)] name →
      partTable.Describes name := by
    rintro name ⟨reference, known, -⟩
    have isScan := Entries.mem_of_get known
    obtain ⟨rfl, -⟩ := Prod.mk.inj (List.mem_singleton.mp isScan)
    exact ⟨⟨"", "Scan numbers"⟩, by decide, by decide⟩
  rw [names] at fills
  exact ⟨names, fills, (once _ covered).1⟩

end CabDocument

end TaskCab
