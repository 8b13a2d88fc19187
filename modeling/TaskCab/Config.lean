import TaskCab.Files.Path
import TaskCab.Yaml.Block
import TaskCab.Yaml.Scalar

/-!
# Configuration

Where the reference pages are, and where generated files go. A configuration file may leave out anything,
which then has its default, and may hold entries that are not known; no entry of its own may come twice.
-/

namespace TaskCab

structure DocsConfig where
  baseUrl : String
  pageSuffix : String
deriving DecidableEq, Repr

namespace DocsConfig

def standard : DocsConfig :=
  ⟨"https://casadocs.readthedocs.io/en/v4.7-v6.1/tasks611/", ".xml.html"⟩

def pageUrl (config : DocsConfig) (task : String) : String :=
  config.baseUrl ++ task ++ config.pageSuffix

end DocsConfig

structure OutputConfig where
  directory : String
  reportSuffix : String
  fixedSuffix : String
deriving DecidableEq, Repr

namespace OutputConfig

def standard : OutputConfig := ⟨".", "_online_validation_report.md", "_fixed"⟩

def documentPath (config : OutputConfig) (cab extension : String) : String :=
  Path.join config.directory (cab ++ "." ++ extension)

def fixedPath (config : OutputConfig) (cab extension : String) : String :=
  Path.join config.directory (cab ++ config.fixedSuffix ++ "." ++ extension)

def reportPath (config : OutputConfig) (cab : String) : String :=
  Path.join config.directory (cab ++ config.reportSuffix)

end OutputConfig

structure Config where
  version : String
  docs : DocsConfig
  output : OutputConfig
deriving DecidableEq, Repr

namespace Config

open TaskCab.Yaml (Node)

def standard : Config := ⟨"1.0", .standard, .standard⟩

/-- The members of a section by their names. None of the section's own may come twice. -/
def section? (names : List String) (node : Node) : Option (List (String × Node)) := do
  let members ← node.members?
  let own := members.filter fun (name, _) => names.contains name
  if (own.map Prod.fst).Nodup then some own else none

def textAt? (name default : String) (members : List (String × Node)) : Option String :=
  match members.lookup name with
  | some node => node.text?
  | none => some default

def docs? (node : Node) : Option DocsConfig := do
  let members ← section? ["base_url", "page_suffix"] node
  let baseUrl ← textAt? "base_url" DocsConfig.standard.baseUrl members
  let pageSuffix ← textAt? "page_suffix" DocsConfig.standard.pageSuffix members
  some ⟨baseUrl, pageSuffix⟩

def output? (node : Node) : Option OutputConfig := do
  let members ← section? ["dir", "report_suffix", "fixed_suffix"] node
  let directory ← textAt? "dir" OutputConfig.standard.directory members
  let reportSuffix ← textAt? "report_suffix" OutputConfig.standard.reportSuffix members
  let fixedSuffix ← textAt? "fixed_suffix" OutputConfig.standard.fixedSuffix members
  some ⟨directory, reportSuffix, fixedSuffix⟩

/-- The configuration of a tree; a section that is left out, or has nothing in it, is the standard one. -/
def ofNode? (node : Node) : Option Config := do
  let members ← section? ["version", "docs", "output"] node
  let version ← textAt? "version" standard.version members
  let docs ← docs? ((members.lookup "docs").getD .missing)
  let output ← output? ((members.lookup "output").getD .missing)
  some ⟨version, docs, output⟩

def read? (text : String) : Option Config := (Node.ofText? text.toList).bind ofNode?

def entry (indent : Nat) (name text : String) : List Char :=
  List.replicate indent ' ' ++ name.toList ++ ':' :: Yaml.afterKey (indent + 2) text.toList

def toYaml (config : Config) : String :=
  String.ofList <|
    entry 0 "version" config.version ++ "docs:\n".toList ++
      entry 2 "base_url" config.docs.baseUrl ++ entry 2 "page_suffix" config.docs.pageSuffix ++
      "output:\n".toList ++ entry 2 "dir" config.output.directory ++
      entry 2 "report_suffix" config.output.reportSuffix ++
      entry 2 "fixed_suffix" config.output.fixedSuffix

end Config

end TaskCab
