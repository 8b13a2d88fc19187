import TaskCab.Json
import TaskCab.Reference.Matching
import TaskCab.Reference.Table
import TaskCab.Table

/-!
# Validation reports

A report compares every input of a document with the reference table of its task.
-/

namespace TaskCab

inductive Comparison where
  | notFound
  | compared (defaultMatches descriptionMatches : Bool) (ownInfo referenceInfo : String)
deriving DecidableEq, Repr

inductive MatchStatus where
  | ok
  | warning
  | notFound
deriving DecidableEq, Repr

namespace MatchStatus

def label : MatchStatus → String
  | ok => "OK"
  | warning => "warning"
  | notFound => "not found"

def key : MatchStatus → String
  | ok => "ok"
  | warning => "warning"
  | notFound => "not_found"

end MatchStatus

namespace Comparison

def status : Comparison → MatchStatus
  | notFound => .notFound
  | compared true true _ _ => .ok
  | compared .. => .warning

def defaultMatches? : Comparison → Option Bool
  | notFound => none
  | compared default _ _ _ => some default

def descriptionMatches? : Comparison → Option Bool
  | notFound => none
  | compared _ description _ _ => some description

def ownInfo : Comparison → String
  | notFound => ""
  | compared _ _ info _ => info

def referenceInfo : Comparison → String
  | notFound => ""
  | compared _ _ _ info => info

def ofReference (record : InputRecord) : Option Reference → Comparison
  | none => notFound
  | some reference =>
      let own := Text.trim record.info.toList
      let described := Text.trim reference.description.toList
      compared
        (Matching.matchesDefault (Matching.normalizeLocal record.default)
          (Matching.normalizeText reference.default.toList))
        (Matching.matchesDescription own described) (String.ofList own) (String.ofList described)

end Comparison

structure Report where
  cabName : String
  rows : List (String × Comparison)
deriving Repr

namespace Report

def ofTable (document : CabDocument) (table : ReferenceTable) : Report :=
  ⟨document.name, document.inputs.map fun (name, record) =>
    (name, .ofReference record (Entries.get? name table))⟩

def count (report : Report) (status : MatchStatus) : Nat :=
  report.rows.countP fun (_, comparison) => comparison.status = status

def mark : Option Bool → String
  | some true => "✓"
  | some false => "✗"
  | none => ""

def cells (name : String) (comparison : Comparison) : List String :=
  [name, comparison.status.label, mark comparison.defaultMatches?,
    mark comparison.descriptionMatches?, Table.truncate comparison.ownInfo 50,
    Table.truncate comparison.referenceInfo 50]

def headers : List String :=
  ["Parameter", "Status", "Default Match", "Description Match", "Local Info", "Reference Info"]

def table (report : Report) : String :=
  Table.render headers (report.rows.map fun (name, comparison) => cells name comparison)

def heading : String := "# Online XML-CASA Validation Report"

def markdown (report : Report) (time : String) : String :=
  heading ++ "\n\n" ++ report.table ++ "\n\nGenerated at " ++ time ++ "\n"

/-- The text of the report's file; a report without rows has none. -/
def file? (report : Report) (time : String) : Option String :=
  if report.rows.isEmpty then none else some (report.markdown time)

def optionalBool : Option Bool → Json
  | some truth => .bool truth
  | none => .null

def rowToJson (name : String) (comparison : Comparison) : Json :=
  .object [("parameter", .str name), ("status", .str comparison.status.key),
    ("default_match", optionalBool comparison.defaultMatches?),
    ("description_match", optionalBool comparison.descriptionMatches?),
    ("local_info", .str comparison.ownInfo), ("reference_info", .str comparison.referenceInfo)]

def toJson (report : Report) (time : String) : Json :=
  .object [("cab_name", .str report.cabName), ("generated_at", .str time),
    ("rows", .array (report.rows.map fun (name, comparison) => rowToJson name comparison))]

end Report

end TaskCab
