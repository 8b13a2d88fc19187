import TaskCab.Format

/-!
# Command line options

The arguments of a call are options, which may stand anywhere, and one task file. A call that repeats or
does not know an option, or leaves out a value or the file, is misused.
-/

namespace TaskCab

structure Options where
  file : String
  validateOnline : Bool
  fixDescription : Bool
  verbose : Bool
  format : DocumentFormat
  outputDirectory : Option String
  docsUrl : Option String
  configFile : Option String
deriving DecidableEq, Repr

inductive Request where
  | run (options : Options)
  | help
  | version
  | misused
deriving DecidableEq, Repr

namespace Request

inductive Switch where
  | validateOnline
  | fixDescription
  | verbose
deriving DecidableEq, Repr

inductive Setting where
  | format
  | outputDirectory
  | docsUrl
  | configFile
deriving DecidableEq, Repr

def switchNames : List (String × Switch) :=
  [("validate-online", .validateOnline), ("fix-description", .fixDescription), ("verbose", .verbose)]

def settingNames : List (String × Setting) :=
  [("format", .format), ("output-dir", .outputDirectory), ("docs-url", .docsUrl),
    ("config", .configFile)]

namespace Setting

/-- Whether a setting takes a value: paths are not empty, and a format is one that there is. -/
def accepts : Setting → String → Bool
  | format, value => (DocumentFormat.ofName? value).isSome
  | docsUrl, _ => true
  | outputDirectory, value | configFile, value => !value.isEmpty

end Setting

structure Given where
  file : Option String
  switches : List Switch
  settings : List (Setting × String)
deriving DecidableEq, Repr

namespace Given

def nothing : Given := ⟨none, [], []⟩

def addFile? (given : Given) (file : String) : Option Given :=
  if given.file.isSome || file.isEmpty then none else some { given with file := some file }

def addSwitch? (given : Given) (switch : Switch) : Option Given :=
  if given.switches.contains switch then none
  else some { given with switches := switch :: given.switches }

def addSetting? (given : Given) (setting : Setting) (value : String) : Option Given :=
  if (given.settings.lookup setting).isSome || !setting.accepts value then none
  else some { given with settings := (setting, value) :: given.settings }

/-- The request of all arguments. The format is YAML unless one is given. -/
def request (given : Given) : Request :=
  match given.file with
  | none => .misused
  | some file =>
      .run {
        file := file
        validateOnline := given.switches.contains .validateOnline
        fixDescription := given.switches.contains .fixDescription
        verbose := given.switches.contains .verbose
        format := ((given.settings.lookup .format).bind DocumentFormat.ofName?).getD .yaml
        outputDirectory := given.settings.lookup .outputDirectory
        docsUrl := given.settings.lookup .docsUrl
        configFile := given.settings.lookup .configFile }

end Given

/-- The forms of an argument: an option by its name, with a value if there is an equals sign, options by
their letters, the end of the options, or a value. -/
inductive Argument where
  | named (name : String) (value : Option String)
  | letters (letters : List Char)
  | endOfOptions
  | plain (value : String)
deriving DecidableEq, Repr

namespace Argument

def ofString (text : String) : Argument :=
  match text.toList with
  | ['-', '-'] => .endOfOptions
  | '-' :: '-' :: option =>
      let name := option.takeWhile (· ≠ '=')
      match option.drop name.length with
      | _ :: value => .named (String.ofList name) (some (String.ofList value))
      | [] => .named (String.ofList name) none
  | '-' :: letter :: rest => .letters (letter :: rest)
  | _ => .plain text

end Argument

/-- The options of letters in a row; the first that asks for a text ends the request. -/
def addLetters (given : Given) : List Char → Except Request Given
  | [] => .ok given
  | letter :: rest =>
      if letter = 'h' then .error .help
      else if letter = 'V' then .error .version
      else if letter = 'v' then
        match given.addSwitch? .verbose with
        | some given => addLetters given rest
        | none => .error .misused
      else .error .misused

def ofValues (given : Given) : List String → Request
  | [] => given.request
  | value :: rest =>
      match given.addFile? value with
      | some given => ofValues given rest
      | none => .misused

/-- The request of the remaining arguments. Help and version are given as soon as they are asked for, if
nothing was wrong before. -/
def ofRemaining (given : Given) : List String → Request
  | [] => given.request
  | text :: rest =>
      match Argument.ofString text with
      | .endOfOptions => ofValues given rest
      | .plain value =>
          match given.addFile? value with
          | some given => ofRemaining given rest
          | none => .misused
      | .letters letters =>
          match addLetters given letters with
          | .ok given => ofRemaining given rest
          | .error request => request
      | .named name value =>
          match switchNames.lookup name, settingNames.lookup name, value with
          | some switch, _, none =>
              match given.addSwitch? switch with
              | some given => ofRemaining given rest
              | none => .misused
          | none, some setting, some value =>
              match given.addSetting? setting value with
              | some given => ofRemaining given rest
              | none => .misused
          | none, some setting, none =>
              match rest with
              | [] => .misused
              | next :: rest =>
                  match Argument.ofString next, given.addSetting? setting next with
                  | .plain _, some given => ofRemaining given rest
                  | _, _ => .misused
          | none, none, none =>
              if name = "help" then .help else if name = "version" then .version else .misused
          | _, _, _ => .misused

def ofArguments (arguments : List String) : Request := ofRemaining .nothing arguments

def versionText : String := "casa-cab 0.1.0\n"

def usage : String := "Usage: casa-cab [OPTIONS] <FILE>\n"

def helpText : String :=
  "Generate Stimela cab definitions from CASA task wrappers\n\n" ++ usage ++
  "\nArguments:\n" ++
  "  <FILE>  CASA task wrapper source file (e.g. applycal.py)\n" ++
  "\nOptions:\n" ++
  "      --validate-online          Compare the generated cab with the online CASA task documentation\n" ++
  "      --fix-description          Fill empty descriptions from the online documentation and write " ++
  "a separate fixed document\n" ++
  "      --format <FORMAT>          Output format for the cab document [default: yaml] " ++
  "[possible values: yaml, json]\n" ++
  "      --output-dir <OUTPUT_DIR>  Directory for generated files (overrides the config file)\n" ++
  "      --docs-url <DOCS_URL>      Base URL of the CASA task documentation (overrides the config file)\n" ++
  "      --config <CONFIG>          YAML configuration file\n" ++
  "  -v, --verbose                  Enable debug logging\n" ++
  "  -h, --help                     Print help\n" ++
  "  -V, --version                  Print version\n"

end Request

end TaskCab
