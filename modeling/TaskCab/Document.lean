import TaskCab.Source.Literal
import TaskCab.Text.Blank

/-!
# Cab documents

A cab document lists the inputs of a task in the order of its signature and, if the task returns a value,
its outputs.
-/

namespace TaskCab

structure InputRecord where
  dtype : String
  default : Option SourceValue
  required : Bool
  info : String
deriving Repr

namespace InputRecord

/-- A record whose input is required exactly if it has no default. -/
def make (dtype : String) (default : Option SourceValue) (info : String) : InputRecord :=
  ⟨dtype, default, default.isNone, info⟩

def setDefault (record : InputRecord) (default : Option SourceValue) : InputRecord :=
  { record with default := default, required := default.isNone }

def sameDefault : Option SourceValue → Option SourceValue → Bool
  | none, none => true
  | some left, some right => left.same right
  | _, _ => false

def same (left right : InputRecord) : Bool :=
  left.dtype == right.dtype && sameDefault left.default right.default &&
    left.required == right.required && left.info == right.info

end InputRecord

abbrev Records := List (String × InputRecord)

namespace Records

/-- Equality of tables of records, whatever their order. -/
def same (left right : Records) : Bool :=
  left.length == right.length && left.all fun (name, record) =>
    (Entries.get? name right).any record.same

end Records

structure CabDocument where
  name : String
  inputs : Records
  outputs : Option Records
deriving Repr

namespace CabDocument

def empty (name : String) : CabDocument := ⟨name, [], none⟩

def input? (document : CabDocument) (name : String) : Option InputRecord :=
  Entries.get? name document.inputs

def inputNames (document : CabDocument) : List String := Entries.keys document.inputs

def sameOutputs : Option Records → Option Records → Bool
  | none, none => true
  | some left, some right => Records.same left right
  | _, _ => false

def same (left right : CabDocument) : Bool :=
  left.name == right.name && Records.same left.inputs right.inputs &&
    sameOutputs left.outputs right.outputs

end CabDocument

inductive Problem where
  | emptyCabName
  | emptyInputName
  | missingDtype (input : String)
  | requiredMismatch (input : String)
deriving DecidableEq, Repr

namespace Problem

def message : Problem → String
  | emptyCabName => "cab name cannot be empty"
  | emptyInputName => "input name cannot be empty"
  | missingDtype input => "input has no dtype: " ++ input
  | requiredMismatch input => "required flag disagrees with default for input: " ++ input

/-- The problems of one input. Without a name nothing else about it is looked at. -/
def ofInput (name : String) (record : InputRecord) : List Problem :=
  if Text.isBlankText name.toList then [emptyInputName]
  else
    (if Text.isBlankText record.dtype.toList then [missingDtype name] else []) ++
      if record.required ≠ record.default.isNone then [requiredMismatch name] else []

end Problem

def CabDocument.problems (document : CabDocument) : List Problem :=
  (if Text.isBlankText document.name.toList then [.emptyCabName] else []) ++
    document.inputs.flatMap fun (name, record) => Problem.ofInput name record

end TaskCab
