import Mathlib.Algebra.BigOperators.Group.List.Basic
import TaskCab.Proofs.Extraction.Problems
import TaskCab.Proofs.Json.StoredDocument
import TaskCab.Proofs.Source.ReadValues

/-!
# Extracted documents in JSON

No default that extraction yields is `null`, and none holds a key twice. The JSON of an extracted document
is read back therefore, and all that an input can lose is a default that is a float and not finite. Its flag
still says then that it has a default, and that is the one new problem.
-/

namespace TaskCab

open TaskCab.Text

namespace Value

/-- A value that can be a default: it is not `null`, and no map in it has a key twice. -/
structure IsDefault (value : Value) : Prop where
  distinct : value.Distinct
  present : value ≠ .null

theorem is_default_int (word : Int64) : IsDefault (.int word) := ⟨trivial, nofun⟩

theorem is_default_float (number : Binary64) : IsDefault (.float number) := ⟨trivial, nofun⟩

theorem is_default_of_items {items : List Value} (distinct : ∀ item ∈ items, item.Distinct) :
    IsDefault (.list items) :=
  ⟨Source.Literal.all_distinct_iff.mpr distinct, nofun⟩

theorem is_default_or {left right : Option Value} (atLeft : ∀ value ∈ left, IsDefault value)
    (atRight : ∀ value ∈ right, IsDefault value) : ∀ value ∈ (left <|> right), IsDefault value := by
  cases left with
  | none => simpa using atRight
  | some value => simpa using atLeft

theorem is_default_get_d {found : Option Value} {other : Value}
    (each : ∀ value ∈ found, IsDefault value) (fallback : IsDefault other) :
    IsDefault (found.getD other) := by
  cases found with
  | none => exact fallback
  | some value => exact each value rfl

end Value

open Value (IsDefault is_default_int is_default_float is_default_of_items is_default_or is_default_get_d)

namespace Docstring

theorem is_default_array {inner : Option (List Char)} (item : List Char → Value)
    (scalar : ∀ text, (item text).Distinct) :
    ∀ value ∈ inner.map fun inner => Value.list ((arrayItems inner).map item), IsDefault value := by
  intro value found
  obtain ⟨inner, -, rfl⟩ := Option.map_eq_some_iff.mp found
  refine is_default_of_items fun other member => ?_
  obtain ⟨text, -, rfl⟩ := List.mem_map.mp member
  exact scalar text

theorem is_default_numbers {Number : Type} {texts : List (List Char)}
    {number? : List Char → Option Number} {ofNumber : Number → Value}
    (scalar : ∀ number, (ofNumber number).Distinct) :
    ∀ value ∈ (texts.mapM fun text => (number? text).map ofNumber).map Value.list,
      IsDefault value := by
  intro value found
  obtain ⟨items, read, rfl⟩ := Option.map_eq_some_iff.mp found
  refine is_default_of_items (Source.Literal.distinct_map_m read ?_)
  intro text _ item isItem
  obtain ⟨number, -, rfl⟩ := Option.map_eq_some_iff.mp isItem
  exact scalar number

theorem is_default_number_array (text : List Char) : ∀ value ∈ numberArray? text, IsDefault value := by
  unfold numberArray?
  cases array? "intArray" text with
  | some inner => exact is_default_numbers fun _ => trivial
  | none =>
      cases array? "floatArray" text with
      | none => exact nofun
      | some inner => exact is_default_numbers fun _ => trivial

theorem is_default_number (text : List Char) : ∀ value ∈ number? text, IsDefault value := by
  refine is_default_or ?_ ?_ <;> intro value found <;>
    obtain ⟨number, -, rfl⟩ := Option.map_eq_some_iff.mp found
  · exact is_default_int number
  · exact is_default_float number

theorem is_default_truth (text : List Char) : ∀ value ∈ truth? text, IsDefault value := by
  unfold truth?
  dsimp only
  split
  · rintro value ⟨⟩
    exact ⟨trivial, nofun⟩
  · split
    · rintro value ⟨⟩
      exact ⟨trivial, nofun⟩
    · exact nofun

theorem is_default_empty_array (text : List Char) : ∀ value ∈ emptyArray? text, IsDefault value := by
  unfold emptyArray?
  split
  · rintro value ⟨⟩
    exact is_default_of_items nofun
  · exact nofun

theorem is_default_read_default (raw : List Char) : IsDefault (readDefault raw) := by
  refine is_default_get_d ?_ ⟨trivial, nofun⟩
  refine is_default_or (is_default_array _ fun _ => trivial) ?_
  refine is_default_or (is_default_array _ fun _ => trivial) ?_
  refine is_default_or (is_default_number_array _) ?_
  refine is_default_or (is_default_empty_array _) ?_
  exact is_default_or (is_default_truth _) (is_default_number _)

end Docstring

namespace SignatureDefault

open TaskCab.Source

theorem is_default_wrapped (text : List Char) :
    ∀ value ∈ (wrappedFloat? text <|> wrappedInt? text), IsDefault value := by
  refine is_default_or ?_ ?_
  · intro value isFloat
    obtain ⟨argument, -, isFloat⟩ := Option.bind_eq_some_iff.mp isFloat
    split at isFloat
    · obtain ⟨number, -, rfl⟩ := Option.map_eq_some_iff.mp isFloat
      exact is_default_float number
    · simp at isFloat
  · intro value isInt
    obtain ⟨argument, -, isInt⟩ := Option.bind_eq_some_iff.mp isInt
    split at isInt
    · obtain ⟨word, -, rfl⟩ := Option.map_eq_some_iff.mp isInt
      exact is_default_int word
    · simp at isInt

theorem distinct_decode {text : List Char} {value : Value}
    (found : Literal.decode text = .decoded value) : value.Distinct := by
  rw [Literal.decode] at found
  cases isRead : Literal.read? text with
  | none => simp [isRead] at found
  | some read =>
      rw [isRead] at found
      obtain rfl := SourceValue.decoded.inj found
      exact Literal.distinct_read isRead

theorem is_default_read {text : List Char} {value : Value}
    (found : read text = some (.decoded value)) : IsDefault value := by
  cases bools : wrappedBools 0 (trim text) with
  | cons truth truths =>
      obtain rfl : Value.list ((truth :: truths).map .bool) = value := by
        simpa [read, bools] using found
      refine is_default_of_items fun item member => ?_
      obtain ⟨flag, -, rfl⟩ := List.mem_map.mp member
      trivial
  | nil =>
      cases wrapped : (wrappedFloat? (trim text) <|> wrappedInt? (trim text)) with
      | some read =>
          obtain rfl : read = value := by simpa [SignatureDefault.read, bools, wrapped] using found
          exact is_default_wrapped _ read wrapped
      | none =>
          simp only [read, bools, wrapped] at found
          split at found
          next => simp at found
          next notNull =>
            have same : Literal.decode (trim text) = .decoded value := Option.some.inj found
            exact ⟨distinct_decode same, fun isNull => notNull (isNull ▸ same)⟩

end SignatureDefault

/-! ### What JSON leaves of a record -/

/-- Whether JSON holds nothing for a default. -/
def SourceValue.isLost : SourceValue → Bool
  | .decoded (.float number) => !number.isFinite
  | _ => false

namespace InputRecord

def losesDefault (record : InputRecord) : Bool := record.default.any SourceValue.isLost

variable {record : InputRecord}

theorem reread_default_is_none (present : record.default ≠ some (.decoded .null)) :
    record.reread.default.isNone = (record.default.isNone || record.losesDefault) := by
  rw [reread, losesDefault]
  cases default : record.default with
  | none => rfl
  | some source =>
      cases source with
      | verbatim text => rfl
      | decoded value =>
          cases value with
          | null => exact absurd default present
          | float number =>
              simp only [Option.bind_some, SourceValue.reread, Value.reread, SourceValue.isLost,
                Option.any_some, Option.isNone_some, Bool.false_or]
              by_cases finite : number.isFinite = true
              · obtain ⟨other, -, read⟩ := Value.reread_float_of_finite finite
                rw [read, finite]
                rfl
              · have lost : number.isFinite = false := by simpa using finite
                rw [Value.reread_float_of_not_finite finite, lost]
                rfl
          | bool | int | str | list | map => rfl

/-- A flag that agrees with a default still does so afterwards, unless the default is lost. -/
theorem reread_agrees_iff (present : record.default ≠ some (.decoded .null))
    (agrees : record.required = record.default.isNone) :
    record.reread.required = record.reread.default.isNone ↔ record.losesDefault = false := by
  rw [reread_default_is_none present, show record.reread.required = record.required from rfl, agrees]
  cases default : record.default <;> simp [losesDefault, default]

/-- A lost default is one problem more, if the input has a name. -/
theorem problems_reread {name : String} (named : isBlankText name.toList = false)
    (present : record.default ≠ some (.decoded .null))
    (agrees : record.required = record.default.isNone) :
    Problem.ofInput name record.reread =
      Problem.ofInput name record ++
        if record.losesDefault then [.requiredMismatch name] else [] := by
  have kept := reread_agrees_iff present agrees
  have dtype : record.reread.dtype = record.dtype := rfl
  simp only [Problem.ofInput, named, Bool.false_eq_true, if_false, dtype, agrees, ne_eq,
    not_true_eq_false, List.append_nil, kept]
  cases record.losesDefault <;> simp

end InputRecord

/-! ### Documents -/

namespace Extraction

open TaskCab.Docstring

theorem is_default_documented {task : Task} {name : String} {doc : ParameterDoc} {value : Value}
    (found : Entries.get? name (documented task) = some doc) (isDefault : doc.default = some value) :
    IsDefault value := by
  obtain ⟨block, -, same⟩ := List.mem_map.mp (Entries.mem_of_get found)
  obtain ⟨-, rfl⟩ := Prod.mk.inj same
  obtain ⟨raw, -, rfl⟩ := Option.map_eq_some_iff.mp isDefault
  exact is_default_read_default raw

/-- Every default of an extracted document can be one. -/
theorem is_default_extracted {cabName source : String} {entry : String × InputRecord} {value : Value}
    (member : entry ∈ (document cabName source).inputs)
    (isDefault : entry.2.default = some (.decoded value)) : IsDefault value := by
  rw [document_inputs] at member
  obtain ⟨parameter, -, rfl⟩ := mem_inputs member
  simp only [inputRecord, InputRecord.make, resolveDefault] at isDefault
  split at isDefault
  next documentedValue isDocumented =>
    obtain rfl : documentedValue = value := by simpa using isDefault
    cases found : Entries.get? parameter.name (documented (Task.ofSource source.toList)) with
    | none => simp [found, ParameterDoc.empty] at isDocumented
    | some doc =>
        rw [found] at isDocumented
        exact is_default_documented found isDocumented
  next =>
    obtain ⟨text, -, isRead⟩ := Option.bind_eq_some_iff.mp isDefault
    exact SignatureDefault.is_default_read isRead

theorem records_document (cabName source : String) :
    (document cabName source).records = (document cabName source).inputs := by
  rw [CabDocument.records, show (document cabName source).outputs.getD [] = [] from ?_,
    List.append_nil]
  rw [document]
  dsimp only
  split <;> rfl

theorem document_tabular (cabName source : String) : (document cabName source).IsTabular where
  inputs := by
    rw [document_inputs]
    exact Entries.distinct_of_list _
  outputs := by
    intro outputs isOutputs
    rw [document] at isOutputs
    dsimp only at isOutputs
    split at isOutputs
    · obtain rfl := Option.some.inj isOutputs
      exact List.nodup_nil
    · simp at isOutputs
  defaults := by
    intro entry member value isDefault
    rw [records_document] at member
    exact (is_default_extracted member isDefault).distinct

variable {cabName source : String} {entry : String × InputRecord}

theorem default_present (member : entry ∈ (document cabName source).inputs) :
    entry.2.default ≠ some (.decoded .null) :=
  fun isNull => (is_default_extracted member isNull).present rfl

theorem required_agrees (member : entry ∈ (document cabName source).inputs) :
    entry.2.required = entry.2.default.isNone := by
  rw [document_inputs] at member
  obtain ⟨parameter, -, same⟩ := mem_inputs member
  rw [same, inputRecord, InputRecord.make]

theorem input_named (parses : Task.signatureParses source.toList = true)
    (member : entry ∈ (document cabName source).inputs) : isBlankText entry.1.toList = false := by
  rw [document_inputs] at member
  obtain ⟨parameter, inParameters, rfl⟩ := mem_inputs member
  exact Task.parameters_visible parses parameter inParameters

theorem problems_reread (parses : Task.signatureParses source.toList = true) :
    (document cabName source).reread.problems =
      (if isBlankText cabName.toList then [Problem.emptyCabName] else []) ++
        (document cabName source).inputs.flatMap fun (name, record) =>
          Problem.ofInput name record ++
            if record.losesDefault then [.requiredMismatch name] else [] := by
  rw [CabDocument.problems, CabDocument.reread, Records.reread, List.flatMap_map]
  refine congrArg _ (List.flatMap_congr fun entry member => ?_)
  exact InputRecord.problems_reread (input_named parses member) (default_present member)
    (required_agrees member)

/-- Nothing is new exactly if no default is lost. -/
theorem problems_reread_eq_iff (parses : Task.signatureParses source.toList = true) :
    (document cabName source).reread.problems = (document cabName source).problems ↔
      ∀ entry ∈ (document cabName source).inputs, entry.2.losesDefault = false := by
  rw [problems_reread parses, CabDocument.problems, show (document cabName source).name = cabName from rfl,
    List.append_cancel_left_eq]
  generalize (document cabName source).inputs = inputs
  constructor
  · intro same entry member
    have lengths := congrArg List.length same
    simp only [List.length_flatMap, List.length_append, List.sum_map_add, Nat.add_eq_left] at lengths
    have none := List.sum_eq_zero_iff_forall_eq_nat.mp lengths _ (List.mem_map.mpr ⟨entry, member, rfl⟩)
    cases found : entry.2.losesDefault with
    | false => rfl
    | true => simp [found] at none
  · intro kept
    refine List.flatMap_congr fun entry member => ?_
    dsimp only
    rw [kept entry member, if_neg Bool.false_ne_true, List.append_nil]

/-- The JSON of an extracted document is read back as a document with the same inputs, whose floats are what
their texts are read as. The flag of an input agrees with its default unless that is lost, and each lost
default is one new problem: the problems are the same exactly if none is lost. -/
theorem extracted_reads_back (cabName source : String)
    (parses : Task.signatureParses source.toList = true)
    (shallow : (Package.toJson (Package.ofDocument (document cabName source))).depth ≤
      Json.depthLimit) :
    ∃ package rebuilt,
      Package.read? (DocumentFormat.json.render (document cabName source)) = some package ∧
      Package.document? package cabName = some rebuilt ∧
      rebuilt.inputs = Records.reread (document cabName source).inputs ∧
      (∀ entry ∈ (document cabName source).inputs,
        (entry.2.reread.required = entry.2.reread.default.isNone ↔ entry.2.losesDefault = false)) ∧
      rebuilt.problems =
        (if isBlankText cabName.toList then [Problem.emptyCabName] else []) ++
          ((document cabName source).inputs.flatMap fun (name, record) =>
            Problem.ofInput name record ++
              if record.losesDefault then [.requiredMismatch name] else []) ∧
      (rebuilt.problems = (document cabName source).problems ↔
        ∀ entry ∈ (document cabName source).inputs, entry.2.losesDefault = false) := by
  have read := CabDocument.read_json (document_tabular cabName source) shallow
  refine ⟨_, (document cabName source).reread, read, ?_, (document cabName source).inputs_reread, ?_,
    problems_reread parses, problems_reread_eq_iff parses⟩
  · exact Package.document_of_document (document cabName source).reread
  · intro entry member
    exact InputRecord.reread_agrees_iff (default_present member) (required_agrees member)

def infiniteSource : String :=
  "class T:\n def __call__(self,x=1e999,y=[2.5,None],z=f(x),w=6.626e-34):\n  pass\n"

theorem extracted_reads_back_of_infinite :
    Task.signatureParses infiniteSource.toList = true ∧
      (Package.toJson (Package.ofDocument (document "t" infiniteSource))).depth ≤ Json.depthLimit ∧
      ¬(document "t" infiniteSource).FloatsReread ∧ (document "t" infiniteSource).problems = [] ∧
      ∃ package rebuilt,
        Package.read? (DocumentFormat.json.render (document "t" infiniteSource)) = some package ∧
        Package.document? package "t" = some rebuilt ∧
        rebuilt.inputs = Records.reread (document "t" infiniteSource).inputs ∧
        rebuilt.problems = [.requiredMismatch "x"] := by
  have parses : Task.signatureParses infiniteSource.toList = true := by decide +kernel
  have shallow : (Package.toJson (Package.ofDocument (document "t" infiniteSource))).depth ≤
      Json.depthLimit := by decide +kernel
  obtain ⟨package, rebuilt, read, found, inputs, -, problems, -⟩ :=
    extracted_reads_back "t" infiniteSource parses shallow
  refine ⟨parses, shallow, by decide +kernel, by decide +kernel, package, rebuilt, read, found, inputs, ?_⟩
  rw [problems]
  decide +kernel

end Extraction

end TaskCab
