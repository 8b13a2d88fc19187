import TaskCab.Document
import TaskCab.Dtype
import TaskCab.Task

/-!
# Extraction

The document of a task wrapper. The default of an input comes from the docstring, or else from the
signature; its type from the schema, its name and its description.
-/

namespace TaskCab

namespace SignatureDefault

open TaskCab.Text TaskCab.Source

/-- The letters that a letter of a word matches without regard to case. -/
def matchesLetter (letter character : Char) : Bool :=
  character.toLower = letter || (letter = 's' && character = 'ſ')

def afterWord? : List Char → List Char → Option (List Char)
  | [], text => some text
  | _ :: _, [] => none
  | letter :: word, character :: text =>
      if matchesLetter letter character then afterWord? word text else none

def wrappedBool? (text : List Char) : Option (Bool × Nat) :=
  match afterWord? "bool(true)".toList text with
  | some _ => some (true, 10)
  | none => (afterWord? "bool(false)".toList text).map fun _ => (false, 11)

/-- The wrapped truth values of a text, from the left, after as many characters as are taken. -/
def wrappedBools : Nat → List Char → List Bool
  | _, [] => []
  | skip + 1, _ :: rest => wrappedBools skip rest
  | 0, character :: rest =>
      match wrappedBool? (character :: rest) with
      | some (truth, length) => truth :: wrappedBools (length - 1) rest
      | none => wrappedBools 0 rest

/-- What stands in the parentheses of a call that is the whole text. -/
def argument? (name : String) (text : List Char) : Option (List Char) := do
  let rest ← afterStart? (name.toList ++ ['(']) text
  if rest.getLast? = some ')' then some rest.dropLast else none

def isPlainFloat (text : List Char) : Bool :=
  let digits := (afterStart? ['-'] text).getD text
  let whole := digits.takeWhile Char.isDigit
  let rest := digits.drop whole.length
  !whole.isEmpty && ((afterStart? ['.'] rest).getD rest).all Char.isDigit

def isPlainInt (text : List Char) : Bool :=
  let digits := (afterStart? ['-'] text).getD text
  !digits.isEmpty && digits.all Char.isDigit

def wrappedFloat? (text : List Char) : Option Value := do
  let argument ← argument? "float" text
  if isPlainFloat argument then (Binary64.read? argument).map .float else none

def wrappedInt? (text : List Char) : Option Value := do
  let argument ← argument? "int" text
  if isPlainInt argument then (Integer.readWord? argument).map .int else none

/-- The default that the text of a signature stands for. Wrapped truth values anywhere in it make a list
of them; the value `None` is no default. -/
def read (text : List Char) : Option SourceValue :=
  let text := trim text
  match wrappedBools 0 text with
  | truth :: truths => some (.decoded (.list ((truth :: truths).map .bool)))
  | [] =>
      match wrappedFloat? text <|> wrappedInt? text with
      | some value => some (.decoded value)
      | none =>
          match Literal.decode text with
          | .decoded .null => none
          | default => some default

end SignatureDefault

namespace Extraction

open TaskCab.Docstring

/-- A documented default comes before that of the signature. -/
def resolveDefault (documented : Option Value) (signature : Option String) : Option SourceValue :=
  match documented with
  | some value => some (.decoded value)
  | none => signature.bind fun text => SignatureDefault.read text.toList

def inputRecord (task : Task) (docs : List (String × ParameterDoc)) (parameter : Parameter) :
    InputRecord :=
  let doc := (Entries.get? parameter.name docs).getD .empty
  .make (Dtype.infer (task.declaredType parameter.name) parameter.name doc.info).name
    (resolveDefault doc.default parameter.default) doc.info

/-- The inputs of a task. A parameter that comes again keeps its place and takes its last record. -/
def inputs (task : Task) (docs : List (String × ParameterDoc)) : Records :=
  Entries.ofList (task.parameters.map fun parameter =>
    (parameter.name, inputRecord task docs parameter))

def document (cabName : String) (source : String) : CabDocument :=
  let task := Task.ofSource source.toList
  ⟨cabName, inputs task (parameters task.docstring.toList), if task.hasOutputs then some [] else none⟩

end Extraction

end TaskCab
