import TaskCab.Document

/-!
# Reference tables

A reference table has what is published of each input of a task: its default, as text, and a description.
A document takes from it the descriptions that it lacks, and nothing else.
-/

namespace TaskCab

structure Reference where
  default : String
  description : String
deriving DecidableEq, Repr

abbrev ReferenceTable := List (String × Reference)

namespace CabDocument

def missingInfo? (table : ReferenceTable) (name : String) (record : InputRecord) : Option String :=
  if record.info.isEmpty then
    match Entries.get? name table with
    | some reference => if reference.description.isEmpty then none else some reference.description
    | none => none
  else none

def filledRecord (table : ReferenceTable) (name : String) (record : InputRecord) : InputRecord :=
  match missingInfo? table name record with
  | some info => { record with info := info }
  | none => record

def filled (document : CabDocument) (table : ReferenceTable) : CabDocument :=
  { document with
    inputs := document.inputs.map fun (name, record) => (name, filledRecord table name record) }

def fillable (document : CabDocument) (table : ReferenceTable) : List String :=
  (document.inputs.filter fun (name, record) => (missingInfo? table name record).isSome).map Prod.fst

/-- The filled document and the names of the inputs that changed, if any did. -/
def fix? (document : CabDocument) (table : ReferenceTable) : Option (CabDocument × List String) :=
  let names := document.fillable table
  if names.isEmpty then none else some (document.filled table, names)

end CabDocument

end TaskCab
