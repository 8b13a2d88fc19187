import TaskCab.CommandLine.Options
import TaskCab.Extraction
import TaskCab.Files.Tree
import TaskCab.Reference.Online
import TaskCab.Reference.Report

/-!
# Runs

A run reads a task file, writes its document, and on request fills in descriptions and compares the
document with the reference page. What a run needs from its surroundings is a parameter, so that the same
run works on a file system and on a file tree in memory. So is the reader of configuration files: nothing is
asked of it, and whatever it makes of a file, a run goes on with that.
-/

namespace TaskCab

/-- What a run needs from its surroundings. -/
structure Host (m : Type → Type) where
  isFile : String → m Bool
  read : String → m (Except FileError ByteArray)
  createDirectories : String → m (Except FileError Unit)
  write : String → String → m (Except FileError Unit)
  page : String → m (Option String)
  time : m String
  print : String → m Unit
  /-- The configuration that the content of a file holds, or what is wrong with the content. -/
  parseConfig : ByteArray → Except String Config

/-- Why there is no configuration: its file cannot be read, or its content is none. -/
inductive ConfigError where
  | file (cause : FileError)
  | content (cause : String)
deriving DecidableEq, Repr

namespace ConfigError

/-- A directory can be opened like a file, so that only the reader of the content fails on it. -/
def message : ConfigError → String
  | file .isDirectory => "YAML error: " ++ FileError.isDirectory.message
  | file cause => "I/O error: " ++ cause.message
  | content cause => "YAML error: " ++ cause

end ConfigError

inductive Failure where
  | missingFile (path : String)
  | config (path : String) (cause : ConfigError)
  | source (path : String) (cause : FileError)
  | outputDirectory (path : String) (cause : FileError)
  | output (cause : FileError)
deriving DecidableEq, Repr

namespace Failure

def message : Failure → String
  | missingFile path => "File not found: " ++ path
  | config path cause => "error: Failed to load config '" ++ path ++ "': " ++ cause.message
  | source path cause => "error: failed to read '" ++ path ++ "': " ++ cause.message
  | outputDirectory path cause =>
      "error: Failed to create output directory '" ++ path ++ "': " ++ cause.message
  | output cause => "error: I/O error: " ++ cause.message

end Failure

inductive Exit where
  | success
  | failed (failure : Failure)
  | misused
deriving DecidableEq, Repr

namespace Exit

def code : Exit → Nat
  | success => 0
  | failed _ => 1
  | misused => 2

end Exit

def decodeText (bytes : ByteArray) : Except FileError String :=
  match String.fromUTF8? bytes with
  | some text => .ok text
  | none => .error .notText

namespace Extraction

def ofFile (path : String) (content : ByteArray) : Except FileError CabDocument :=
  (decodeText content).map (document (Path.cabName path))

end Extraction

namespace Config

def ofFile (content : ByteArray) : Except String Config :=
  match (String.fromUTF8? content).bind read? with
  | some config => .ok config
  | none => .error "not a configuration"

def override (config : Config) (options : Options) : Config :=
  { config with
    docs := { config.docs with baseUrl := options.docsUrl.getD config.docs.baseUrl }
    output :=
      { config.output with
        directory := options.outputDirectory.getD config.output.directory } }

end Config

namespace Host

variable {m : Type → Type} [Monad m]

def attempt {Result : Type} (failure : FileError → Failure) (action : m (Except FileError Result)) :
    ExceptT Failure m Result :=
  ExceptT.mk do return (← action).mapError failure

def printLine (host : Host m) (text : String) : m Unit := host.print (text ++ "\n")

def config (host : Host m) (options : Options) : ExceptT Failure m Config :=
  match options.configFile with
  | none => return Config.standard.override options
  | some path => do
      let content ← attempt (fun cause => .config path (.file cause)) (host.read path)
      match host.parseConfig content with
      | .ok config => return config.override options
      | .error cause => throw (.config path (.content cause))

def source (host : Host m) (path : String) : ExceptT Failure m CabDocument := do
  let content ← attempt (.source path) (host.read path)
  match Extraction.ofFile path content with
  | .ok document => return document
  | .error cause => throw (.source path cause)

def save (host : Host m) (path text : String) : ExceptT Failure m Unit :=
  attempt .output (host.write path text)

def table (host : Host m) (config : DocsConfig) (task : String) : m ReferenceTable := do
  let page ← host.page (config.pageUrl task)
  return ReferenceTable.orEmpty (ReferenceTable.ofPage config task page)

/-- Fills in descriptions. Returns the document with them, which is also written to a file of its own, or
the same document if there are none. -/
def fix (host : Host m) (config : Config) (options : Options) (document : CabDocument) :
    ExceptT Failure m CabDocument := do
  match document.fix? (← host.table config.docs document.name) with
  | none =>
      host.printLine "No missing descriptions could be filled."
      return document
  | some (fixed, names) =>
      for name in names do
        host.printLine
          ("Filled missing info for '" ++ name ++ "' from the reference documentation.")
      let path := config.output.fixedPath document.name options.format.extension
      host.save path (options.format.render fixed)
      host.printLine ("Cab with fixed descriptions written to: " ++ path)
      return fixed

/-- Compares a document with its reference page, and writes the report if it has rows. -/
def validate (host : Host m) (config : Config) (document : CabDocument) :
    ExceptT Failure m Unit := do
  let report := Report.ofTable document (← host.table config.docs document.name)
  match report.file? (← host.time) with
  | none => host.printLine "No matching parameters found."
  | some text =>
      host.print ("\n" ++ Report.heading ++ "\n" ++ report.table ++ "\n")
      let path := config.output.reportPath document.name
      host.save path text
      host.printLine ("Report written to: " ++ path)

def run (host : Host m) (options : Options) : ExceptT Failure m Unit := do
  unless ← host.isFile options.file do throw (.missingFile options.file)
  let config ← host.config options
  let extracted ← host.source options.file
  attempt (.outputDirectory config.output.directory)
    (host.createDirectories config.output.directory)
  let path := config.output.documentPath extracted.name options.format.extension
  host.save path (options.format.render extracted)
  let document ← if options.fixDescription then host.fix config options extracted else pure extracted
  host.print ("Cab written to: " ++ path ++ "\n\n" ++ Table.summary document)
  if options.validateOnline then host.validate config document

def call (host : Host m) (arguments : List String) : m Exit := do
  match Request.ofArguments arguments with
  | .misused => return .misused
  | .help =>
      host.print Request.helpText
      return .success
  | .version =>
      host.print Request.versionText
      return .success
  | .run options =>
      match ← (host.run options).run with
      | .ok () => return .success
      | .error failure => return .failed failure

end Host

structure World where
  files : FileTree
  printed : String

namespace World

def change (result : FileTree → Except FileError FileTree) : StateM World (Except FileError Unit) :=
  fun world =>
    match result world.files with
    | .ok files => (.ok (), { world with files := files })
    | .error cause => (.error cause, world)

/-- A file tree as surroundings, with the pages that can be reached, a fixed time and a reader of
configurations. -/
def host (pages : String → Option String) (time : String)
    (parseConfig : ByteArray → Except String Config) : Host (StateM World) where
  isFile path := return (← get).files.isFile path
  read path := return (← get).files.read path
  createDirectories path := change fun files => files.createDirectories path
  write path text := change fun files => files.write path text.toUTF8
  page address := return pages address
  time := return time
  print text := modify fun world => { world with printed := world.printed ++ text }
  parseConfig := parseConfig

end World

end TaskCab
