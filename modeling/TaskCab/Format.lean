import TaskCab.Package
import TaskCab.Yaml.Printer

/-!
# Document formats

The formats that a document can be written in, with their names and file extensions.
-/

namespace TaskCab

inductive DocumentFormat where
  | yaml
  | json
deriving DecidableEq, Repr

namespace DocumentFormat

def extension : DocumentFormat → String
  | yaml => "yaml"
  | json => "json"

def ofName? (name : String) : Option DocumentFormat :=
  [yaml, json].find? fun format => format.extension = name

def render : DocumentFormat → CabDocument → String
  | yaml, document => Yaml.document document
  | json, document => document.toJson

end DocumentFormat

end TaskCab
