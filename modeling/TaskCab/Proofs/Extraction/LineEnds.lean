import TaskCab.Extraction
import TaskCab.Proofs.Extraction.ReturnedTasks

/-!
# Documents with other line ends

Whether lines end in a line feed or in a carriage return and a line feed does not matter to the document of
a source, as long as no literal of the signature or of a declared type goes on over a line end, and no
backslash of the docstring joins lines.
-/

namespace TaskCab.Extraction

open TaskCab.Text TaskCab.Source TaskCab.Docstring

/-- Whether the default of a parameter is documented, or else reads the same with the returns put in. -/
def SameDefault (docs : List (String × ParameterDoc)) (parameter : Parameter) : Prop :=
  ((Entries.get? parameter.name docs).getD .empty).default = none →
    ∀ text ∈ parameter.default,
      SignatureDefault.read (withReturns text.toList) = SignatureDefault.read text.toList

theorem make_same_iff {dtype info : String} {default other : Option SourceValue} :
    InputRecord.make dtype default info = InputRecord.make dtype other info ↔ default = other := by
  constructor
  · intro same
    rw [InputRecord.make, InputRecord.make, InputRecord.mk.injEq] at same
    exact same.2.1
  · rintro rfl
    rfl

theorem same_default_of_one_line {parameter : Parameter}
    (oneLine : ∀ text ∈ parameter.default, '\n' ∉ text.toList) (docs : List (String × ParameterDoc)) :
    SameDefault docs parameter :=
  fun _ text given => by rw [with_returns_of_no_feed (oneLine text given)]

theorem resolve_returned_iff (docs : List (String × ParameterDoc)) (parameter : Parameter) :
    resolveDefault ((Entries.get? parameter.name docs).getD .empty).default
        (parameter.default.map returnedText) =
      resolveDefault ((Entries.get? parameter.name docs).getD .empty).default parameter.default ↔
        SameDefault docs parameter := by
  unfold SameDefault
  cases ((Entries.get? parameter.name docs).getD .empty).default with
  | some value => simp [resolveDefault]
  | none =>
      cases parameter.default with
      | none => simp [resolveDefault]
      | some text => simp [resolveDefault, returnedText]

theorem document_ext {left right : CabDocument} (name : left.name = right.name)
    (inputs : left.inputs = right.inputs) (outputs : left.outputs = right.outputs) : left = right := by
  cases left
  cases right
  cases name
  cases inputs
  cases outputs
  rfl

def sourceDocs (source : String) : List (String × ParameterDoc) :=
  parameters (Task.ofSource source.toList).docstring.toList

theorem inputs_eq (cabName source : String) :
    (document cabName source).inputs =
      Entries.ofList ((Task.ofSource source.toList).parameters.map fun parameter =>
        (parameter.name, inputRecord (Task.ofSource source.toList) (sourceDocs source) parameter)) := by
  unfold document
  dsimp only
  rw [inputs, sourceDocs]

section

variable {source : String} (noReturn : '\r' ∉ source.toList)
  (parses : Line.Parses (returnedText source).toList)

include noReturn parses

theorem record_returned (steady : Task.Steady source.toList) {parameter : Parameter}
    (member : parameter ∈ (Task.ofSource source.toList).parameters) :
    inputRecord (Task.ofSource (returnedText source).toList) (sourceDocs source) parameter.returned =
        inputRecord (Task.ofSource source.toList) (sourceDocs source) parameter ↔
      SameDefault (sourceDocs source) parameter := by
  have name : parameter.returned.name = parameter.name :=
    (returned_text_same_iff _).mpr (steady.names parameter member)
  have type : (Task.ofSource (returnedText source).toList).declaredType parameter.name =
      (Task.ofSource source.toList).declaredType parameter.name := by
    rw [returned_text_to_list] at parses ⊢
    exact Task.declared_returned_type noReturn parses steady parameter.name
  rw [← resolve_returned_iff, inputRecord, inputRecord, name, type]
  exact make_same_iff

theorem parameters_of_returned :
    (Task.ofSource (returnedText source).toList).parameters =
      (Task.ofSource source.toList).parameters.map Parameter.returned := by
  rw [returned_text_to_list] at parses ⊢
  exact Task.parameters_returned noReturn parses

theorem docs_returned (steady : Task.Steady source.toList) :
    sourceDocs (returnedText source) = sourceDocs source := by
  have docstring : (Task.ofSource (returnedText source).toList).docstring =
      (Task.ofSource source.toList).docstring := by
    rw [returned_text_to_list] at parses ⊢
    exact Task.docstring_returned noReturn parses steady
  rw [sourceDocs, sourceDocs, docstring]

theorem inputs_returned (steady : Task.Steady source.toList) (cabName : String) :
    (document cabName (returnedText source)).inputs =
      Entries.ofList ((Task.ofSource source.toList).parameters.map fun parameter =>
        (parameter.name, inputRecord (Task.ofSource (returnedText source).toList) (sourceDocs source)
          parameter.returned)) := by
  rw [inputs_eq, docs_returned noReturn parses steady, parameters_of_returned noReturn parses,
    List.map_map]
  apply congrArg Entries.ofList
  refine List.map_congr_left fun parameter member => ?_
  have name : parameter.returned.name = parameter.name :=
    (returned_text_same_iff _).mpr (steady.names parameter member)
  rw [Function.comp_apply, name]

theorem outputs_returned (cabName : String) :
    (document cabName (returnedText source)).outputs = (document cabName source).outputs := by
  have outputs : (Task.ofSource (returnedText source).toList).hasOutputs =
      (Task.ofSource source.toList).hasOutputs := by
    rw [returned_text_to_list] at parses ⊢
    exact Task.has_outputs_returned noReturn parses
  rw [document, document, outputs]

theorem document_returned (steady : Task.Steady source.toList)
    (same : ∀ parameter ∈ (Task.ofSource source.toList).parameters,
      SameDefault (sourceDocs source) parameter) (cabName : String) :
    document cabName (returnedText source) = document cabName source := by
  have inputs : (document cabName (returnedText source)).inputs = (document cabName source).inputs := by
    rw [inputs_returned noReturn parses steady, inputs_eq]
    apply congrArg Entries.ofList
    refine List.map_congr_left fun parameter member => ?_
    rw [(record_returned noReturn parses steady member).mpr (same parameter member)]
  exact document_ext rfl inputs (outputs_returned noReturn parses cabName)

theorem same_default_of_document (steady : Task.Steady source.toList)
    (distinct : ((Task.ofSource source.toList).parameters.map Parameter.name).Nodup) {cabName : String}
    (same : document cabName (returnedText source) = document cabName source) :
    ∀ parameter ∈ (Task.ofSource source.toList).parameters, SameDefault (sourceDocs source) parameter := by
  have tables := congrArg CabDocument.inputs same
  rw [inputs_returned noReturn parses steady, inputs_eq, Entries.of_list_of_distinct,
    Entries.of_list_of_distinct] at tables
  · intro parameter member
    have entries := List.map_inj_left.mp tables parameter member
    rw [Prod.mk.injEq] at entries
    exact (record_returned noReturn parses steady member).mp entries.2
  · simpa [Entries.Distinct, Entries.keys, Function.comp_def] using distinct
  · simpa [Entries.Distinct, Entries.keys, Function.comp_def] using distinct

end

/-- Other line ends put returns into the names and the defaults of the parameters, and change no outputs. A
source that keeps its names, its declared types and its docstring together has the same document if no
default goes on over a line end; with distinct names, exactly if each default is documented or reads the
same. -/
theorem document_of_line_ends {source : String} (noReturn : '\r' ∉ source.toList)
    (parses : Line.Parses (returnedText source).toList) (cabName : String) :
    (Task.ofSource (returnedText source).toList).parameters =
        (Task.ofSource source.toList).parameters.map Parameter.returned ∧
      (document cabName (returnedText source)).outputs = (document cabName source).outputs ∧
      (Task.Steady source.toList →
        ((∀ parameter ∈ (Task.ofSource source.toList).parameters,
            ∀ default ∈ parameter.default, '\n' ∉ default.toList) →
          document cabName (returnedText source) = document cabName source) ∧
        (((Task.ofSource source.toList).parameters.map Parameter.name).Nodup →
          (document cabName (returnedText source) = document cabName source ↔
            ∀ parameter ∈ (Task.ofSource source.toList).parameters,
              SameDefault (sourceDocs source) parameter))) := by
  refine ⟨parameters_of_returned noReturn parses, outputs_returned noReturn parses cabName,
    fun steady => ⟨fun oneLine => ?_, fun distinct => ?_⟩⟩
  · exact document_returned noReturn parses steady
      (fun parameter member => same_default_of_one_line (oneLine parameter member) _) cabName
  · exact ⟨same_default_of_document noReturn parses steady distinct,
      fun same => document_returned noReturn parses steady same cabName⟩

def joinedSource : String := "class T:\n def __call__(self,x='a\\\nb'):\n  pass\n"

def spreadSource : String :=
  "class T:\n '''a\nb'''\n def __call__(self,x=[1,\n2]):\n  schema=\x7b'x':\n\x7b'type':'int'\x7d\x7d\n"

theorem document_of_spread_source :
    (Task.ofSource (returnedText joinedSource).toList).parameters = [⟨"x", some "'a\\\r\nb'"⟩] ∧
      document "t" (returnedText joinedSource) ≠ document "t" joinedSource ∧
      document "t" (returnedText spreadSource) = document "t" spreadSource := by
  have joined : (Task.ofSource joinedSource.toList).parameters = [⟨"x", some "'a\\\nb'"⟩] := by
    decide +kernel
  have steadyJoined : Task.Steady joinedSource.toList :=
    ⟨by decide +kernel, by decide +kernel, by decide +kernel⟩
  have steadySpread : Task.Steady spreadSource.toList :=
    ⟨by decide +kernel, by decide +kernel, by decide +kernel⟩
  obtain ⟨parameters, -, kept⟩ :=
    @document_of_line_ends joinedSource (by decide +kernel) (by decide +kernel) "t"
  obtain ⟨-, -, spread⟩ := @document_of_line_ends spreadSource (by decide +kernel) (by decide +kernel) "t"
  refine ⟨by rw [parameters, joined]; decide +kernel, fun same => ?_,
    (spread steadySpread).1 (by decide +kernel)⟩
  rw [(kept steadyJoined).2 (by rw [joined]; decide), joined] at same
  have read := congrArg (Option.map SourceValue.displayText)
    (same _ (.head _) (by decide +kernel) _ rfl)
  revert read
  decide +kernel

end TaskCab.Extraction
