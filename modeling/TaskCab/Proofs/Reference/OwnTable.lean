import TaskCab.Proofs.Reference.OwnText
import TaskCab.Reference.Report

/-!
# A document against its own table

The own table of a document lists each input with its default as it is printed and with its description.
A row of the report on that table is fine unless the default is a text that is not read back as it was
written, or was kept as a text that denotes a NaN.
-/

namespace TaskCab

open Source Text Matching Value

namespace InputRecord

def printedDefault (record : InputRecord) : String :=
  match record.default with
  | none => "None"
  | some (.decoded value) => value.literalText
  | some (.verbatim text) => text

/-- Whether a decoded default can be read back from the text that it is printed as. -/
def Printable (record : InputRecord) : Prop :=
  ∀ value, record.default = some (.decoded value) →
    Distinct value ∧ (∀ text ∈ texts value, '\x00' ∉ text.toList) ∧
      .int Int64.minValue ∉ scalars value ∧
        ∀ number, .float number ∈ scalars value → number.isFinite = true

end InputRecord

namespace CabDocument

def ownTable (document : CabDocument) : ReferenceTable :=
  document.inputs.map fun (name, record) => (name, ⟨record.printedDefault, record.info⟩)

end CabDocument

namespace Matching

/-- Whether a default matches the text that it is printed as. A text is read like a published one, so
that one which is a literal must match under the rules for the value that it denotes. -/
def MatchesPrinted : Option SourceValue → Prop
  | some (.decoded (.str text)) =>
      match Literal.read? (trim text.toList) with
      | some value => matchesDefault value (.str text) = true
      | none => lower (trim text.toList) = text.toList ∨ trim text.toList = emptyArray
  | some (.verbatim text) =>
      ∀ number, .float number ∈ scalars (normalizeText text.toList) → number.isNaN = false
  | _ => True

theorem normalize_text_eq (raw : List Char) :
    normalizeText raw =
      if trim raw = emptyArray then .list []
      else if trim raw = boolArray then .list [.bool true]
      else
        match Literal.read? (trim raw) with
        | some value => value
        | none => .str (String.ofList (lower (trim raw))) := by
  unfold normalizeText Literal.decode emptyArray boolArray
  dsimp only
  cases Literal.read? (trim raw) <;> rfl

theorem unread_empty_array : Literal.read? emptyArray = none :=
  Option.isNone_iff_eq_none.mp (by decide +kernel)

theorem unread_bool_array : Literal.read? boolArray = none :=
  Option.isNone_iff_eq_none.mp (by decide +kernel)

theorem normalize_of_read {raw : List Char} {value : Value}
    (read : Literal.read? (trim raw) = some value) : normalizeText raw = value := by
  have notEmpty : trim raw ≠ emptyArray := by
    intro same
    simp [same, unread_empty_array] at read
  have notBool : trim raw ≠ boolArray := by
    intro same
    simp [same, unread_bool_array] at read
  rw [normalize_text_eq, if_neg notEmpty, if_neg notBool, read]

theorem distinct_normalize_text (raw : List Char) : Distinct (normalizeText raw) := by
  rw [normalize_text_eq]
  split
  · trivial
  split
  · exact ⟨trivial, trivial⟩
  split
  next value read => exact Literal.distinct_read read
  next => trivial

theorem normalize_literal {value : Value} (distinct : Distinct value)
    (noNull : ∀ text ∈ texts value, '\x00' ∉ text.toList) (readable : readable value = true) :
    normalizeText (literal value) = value := by
  apply normalize_of_read
  rw [trim_of_framed (framed_literal value), read_literal distinct noNull, readable]
  rfl

/-- What the text of a default is read as matches the text exactly in the cases named. -/
theorem matches_text_iff (text : String) :
    matchesDefault (normalizeText text.toList) (.str text) = true ↔
      MatchesPrinted (some (.decoded (.str text))) := by
  unfold MatchesPrinted
  dsimp only
  cases read : Literal.read? (trim text.toList) with
  | some value => rw [normalize_of_read read]
  | none =>
      rw [normalize_text_eq, read]
      by_cases empty : trim text.toList = emptyArray
      · simp [empty, matches_empty_array empty]
      by_cases bool : trim text.toList = boolArray
      · rw [if_neg empty, if_pos bool, matches_bool_array bool, bool]
        have changed : lower boolArray ≠ text.toList := by
          intro same
          rw [← same] at bool
          exact absurd bool (by decide +kernel)
        have different : boolArray ≠ emptyArray := by decide
        simp [changed, different]
      · rw [if_neg empty, if_neg bool]
        simp [matches_lowered, empty]

/-- A default matches the text that it is printed as exactly in the cases named. -/
theorem matches_printed_iff {record : InputRecord} (printable : record.Printable) :
    matchesDefault (normalizeLocal record.default) (normalizeText record.printedDefault.toList) =
        true ↔ MatchesPrinted record.default := by
  unfold InputRecord.printedDefault
  cases same : record.default with
  | none =>
      have null : normalizeText (literal .null) = .null :=
        normalize_literal trivial (by simp [texts]) rfl
      have literalText : "None".toList = literal .null := rfl
      dsimp only [normalizeLocal]
      rw [literalText, null]
      exact iff_of_true rfl trivial
  | some default =>
      cases default with
      | verbatim text =>
          have distinct := distinct_normalize_text text.toList
          rw [normalizeLocal, matches_default_self distinct, all_not_nan_iff]
          rfl
      | decoded value =>
          obtain ⟨distinct, noNull, least, finite⟩ := printable value same
          have readable := (readable_iff value).mpr ⟨least, finite⟩
          have reference : normalizeText value.literalText.toList = value := by
            rw [literalText, String.toList_ofList]
            exact normalize_literal distinct noNull readable
          have sound : matchesDefault value value = true := by
            rw [matches_default_self distinct, all_not_nan_iff]
            intro number member
            exact Binary64.not_nan_of_finite (finite number member)
          dsimp only
          rw [reference]
          cases value with
          | str text => exact matches_text_iff text
          | null | bool | int | float | list | map => exact iff_of_true sound trivial

theorem matches_own_description (info : String) (short : info.length ≤ 50) :
    matchesDescription (trim info.toList) (trim info.toList) = true := by
  have bound : (trim info.toList).length ≤ 50 :=
    Nat.le_trans (length_trim_le info.toList) short
  rw [matchesDescription, List.take_of_length_le bound]
  exact occurs_self _

end Matching

namespace CabDocument

theorem get_own_table {document : CabDocument} (distinct : Entries.Distinct document.inputs)
    {input : String × InputRecord} (member : input ∈ document.inputs) :
    Entries.get? input.1 document.ownTable = some ⟨input.2.printedDefault, input.2.info⟩ := by
  have names : Entries.Distinct document.ownTable := by
    have same : Entries.keys document.ownTable = Entries.keys document.inputs := by
      simp [ownTable, Entries.keys]
    rw [Entries.Distinct, same]
    exact distinct
  apply Entries.get_of_mem names
  exact List.mem_map.mpr ⟨input, member, rfl⟩

/-- On the own table of a document with short descriptions, a row is fine exactly if the default matches
the text that it is printed as; of a text that depends on the text alone. -/
theorem own_table_ok_iff (document : CabDocument) (distinct : Entries.Distinct document.inputs)
    (printable : ∀ input ∈ document.inputs, input.2.Printable ∧ input.2.info.length ≤ 50) :
    List.Forall₂
      (fun input row => row.1 = input.1 ∧ (row.2.status = .ok ↔ MatchesPrinted input.2.default))
      document.inputs (Report.ofTable document document.ownTable).rows ∧
    ∀ text : String, '\x00' ∉ text.toList →
      (matchesDefault (normalizeLocal (some (.decoded (.str text))))
        (normalizeText (textLiteral text.toList)) = true ↔
          MatchesPrinted (some (.decoded (.str text)))) := by
  constructor
  · rw [Report.ofTable, List.forall₂_map_right_iff, List.forall₂_same]
    intro input member
    obtain ⟨canPrint, short⟩ := printable input member
    have description := matches_own_description input.2.info short
    refine ⟨rfl, ?_⟩
    dsimp only
    rw [get_own_table distinct member, ← matches_printed_iff canPrint, Comparison.ofReference,
      description]
    cases matchesDefault (normalizeLocal input.2.default)
      (normalizeText input.2.printedDefault.toList) <;> simp [Comparison.status]
  · intro text noNull
    have reference : normalizeText (literal (.str text)) = .str text :=
      normalize_literal trivial (by simpa [texts] using noNull) rfl
    rw [literal] at reference
    rw [reference]
    exact matches_text_iff text

theorem own_table_ok_of_list :
    let record : InputRecord := .make "list" (some (.decoded (.list [.int 1, .str "Linear"]))) "Data"
    let document : CabDocument := ⟨"flagdata", [("spw", record)], none⟩
    ∀ row ∈ (Report.ofTable document document.ownTable).rows, row.2.status = .ok := by
  intro record document row member
  have printable : record.Printable := by
    intro value same
    obtain rfl : Value.list [.int 1, .str "Linear"] = value := by
      simpa [record, InputRecord.make] using same
    exact ⟨⟨trivial, trivial, trivial⟩, by simp [texts, itemTexts], by simp [scalars, itemScalars]; decide,
      by simp [scalars, itemScalars]⟩
  have rows := (own_table_ok_iff document (by simp [document, Entries.Distinct, Entries.keys])
    (by simpa [document] using ⟨printable, by decide⟩)).1
  cases rows with
  | cons first rest =>
      cases rest
      obtain rfl := List.mem_singleton.mp member
      exact first.2.mpr trivial

/-- The letters of a text in a document are lowered, those of a published text are not. -/
theorem own_table_not_ok_of_capital :
    ¬∀ document : CabDocument, Entries.Distinct document.inputs →
      (∀ input ∈ document.inputs, input.2.Printable ∧ input.2.info.length ≤ 50) →
        ∀ row ∈ (Report.ofTable document document.ownTable).rows, row.2.status = .ok := by
  intro claimed
  let record : InputRecord := .make "str" (some (.decoded (.str "Linear"))) ""
  have printable : record.Printable := by
    intro value same
    obtain rfl : Value.str "Linear" = value := by simpa [record, InputRecord.make] using same
    exact ⟨trivial, by simp [texts], by simp [scalars], by simp [scalars]⟩
  have ok := claimed ⟨"flagdata", [("correlation", record)], none⟩ (by simp [Entries.Distinct, Entries.keys])
    (by simpa using ⟨printable, by decide⟩)
  have status := ok _ (.head _)
  exact absurd status (by decide +kernel)

end CabDocument

end TaskCab
