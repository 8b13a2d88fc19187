import TaskCab.Document
import TaskCab.Yaml.Scalar

/-!
# Documents in YAML

Lists stand at the indentation of their key, maps one step deeper, and a collection inside a list below a
bare hyphen. Descriptions are always double-quoted, since they may hold anything.
-/

namespace TaskCab.Yaml

def floatText (number : Binary64) : List Char :=
  if number.isNaN then ".nan".toList
  else if number.isInfinite then (if number.isNegative then "-.inf" else ".inf").toList
  else
    let literal := Value.floatLiteral number
    let mantissa := literal.takeWhile (· ≠ 'e')
    let exponent := literal.drop mantissa.length
    if exponent.isEmpty || mantissa.contains '.' then literal else mantissa ++ ['.', '0'] ++ exponent

/-- A value on one line; collections count as empty. -/
def scalarText : Value → List Char
  | .null => "null".toList
  | .bool truth => (if truth then "true" else "false").toList
  | .int word => Integer.render word.toInt
  | .float number => floatText number
  | .str text => scalar text.toList
  | .list _ => ['[', ']']
  | .map _ => ['\x7b', '\x7d']

def line (indent : Nat) (text : List Char) : List Char := List.replicate indent ' ' ++ text

def key (name : String) : List Char := scalar name.toList ++ [':']

mutual

def entryLines (indent : Nat) (name : String) : Value → List (List Char)
  | .list (item :: items) => line indent (key name) :: itemLines indent (item :: items)
  | .map (entry :: entries) =>
      line indent (key name) :: entriesLines (indent + 2) (entry :: entries)
  | value => [line indent (key name ++ ' ' :: scalarText value)]

def entriesLines (indent : Nat) : List (String × Value) → List (List Char)
  | [] => []
  | (name, value) :: rest => entryLines indent name value ++ entriesLines indent rest

def itemLines (indent : Nat) : List Value → List (List Char)
  | [] => []
  | item :: rest => oneItemLines indent item ++ itemLines indent rest

def oneItemLines (indent : Nat) : Value → List (List Char)
  | .list (item :: items) => line indent ['-'] :: itemLines (indent + 2) (item :: items)
  | .map (entry :: entries) => line indent ['-'] :: entriesLines (indent + 2) (entry :: entries)
  | value => [line indent ('-' :: ' ' :: scalarText value)]

end

def defaultLines (indent : Nat) : Option SourceValue → List (List Char)
  | some (.decoded value) => entryLines indent "default" value
  | some (.verbatim text) => [line indent ("default: ".toList ++ scalar text.toList)]
  | none => [line indent "default: null".toList]

def recordLines (indent : Nat) (name : String) (record : InputRecord) : List (List Char) :=
  line indent (key name) :: line (indent + 2) ("dtype: ".toList ++ scalar record.dtype.toList) ::
    defaultLines (indent + 2) record.default ++
      [line (indent + 2)
          ("required: ".toList ++ (if record.required then "true" else "false").toList),
        line (indent + 2) ("info: ".toList ++ doubleQuoted record.info.toList)]

/-- The lines of a section; one without records stays on the line of its name. -/
def sectionLines (name : String) (records : Records) : List (List Char) :=
  if records.isEmpty then [line 4 (name.toList ++ ": \x7b\x7d".toList)]
  else
    line 4 (name.toList ++ [':']) ::
      records.flatMap fun (name, record) => recordLines 6 name record

def documentLines (document : CabDocument) : List (List Char) :=
  "cabs:".toList :: line 2 (key document.name) :: sectionLines "inputs" document.inputs ++
    match document.outputs with
    | some outputs => sectionLines "outputs" outputs
    | none => []

def unlines (lines : List (List Char)) : List Char := lines.flatMap fun line => line ++ ['\n']

def document (document : CabDocument) : String := String.ofList (unlines (documentLines document))

end TaskCab.Yaml
