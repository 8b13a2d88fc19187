import TaskCab.Docstring.Section
import TaskCab.Value

/-!
# Defaults in docstrings

A parameter block holds a description and may declare a default as `default: (...)`. Inside the
parentheses arrays carry a name for the type of their items, such as `intArray=[1, 2]`; truth values and
numbers stand bare, and everything else is text, with or without quotes.
-/

namespace TaskCab.Docstring

open TaskCab.Text

def isQuote (character : Char) : Bool := character = '\'' || character = '"'

def stripQuotes (text : List Char) : List Char :=
  ((text.dropWhile isQuote).reverse.dropWhile isQuote).reverse

/-- The items between the commas of an array; blank ones do not count. -/
def arrayItems (inner : List Char) : List (List Char) :=
  ((splitWhere (· == ',') inner).map trim).filter fun item => !item.isEmpty

/-- What stands in the square brackets after the name of an array, on one line. -/
def array? (name : String) (text : List Char) : Option (List Char) := do
  let rest ← afterStart? (name.toList ++ ['=', '[']) text
  let inner := rest.takeWhile fun c => c ≠ ']' && c ≠ '\n'
  if (rest.drop inner.length).head? = some ']' then some inner else none

def float? (text : List Char) : Option Binary64 := (Decimal.read? text).map Decimal.toBinary64

def number? (text : List Char) : Option Value :=
  ((Integer.readWord? text).map .int) <|> ((float? text).map .float)

def boolArray? (text : List Char) : Option Value :=
  (array? "boolArray" text).map fun inner =>
    .list ((arrayItems inner).map fun item => .bool (item = "True".toList))

def stringArray? (text : List Char) : Option Value :=
  (array? "stringArray" text).map fun inner =>
    .list ((arrayItems inner).map fun item => .str (String.ofList (stripQuotes item)))

/-- An array of integers, or of floats if the name says so; none if an item is no such number. -/
def numberArray? (text : List Char) : Option Value :=
  match array? "intArray" text with
  | some inner =>
      ((arrayItems inner).mapM fun item => (Integer.readWord? item).map Value.int).map .list
  | none => do
      let inner ← array? "floatArray" text
      ((arrayItems inner).mapM fun item => (Binary64.read? item).map Value.float).map .list

def truth? (text : List Char) : Option Value :=
  let lowered := lower text
  if lowered = "true".toList then some (.bool true)
  else if lowered = "false".toList then some (.bool false)
  else none

def emptyArray? (text : List Char) : Option Value :=
  if text = "numpy.array([])".toList then some (.list []) else none

def readDefault (raw : List Char) : Value :=
  let text := trim raw
  (boolArray? text <|> stringArray? text <|> numberArray? text <|> emptyArray? text <|>
    truth? text <|> number? text).getD (.str (String.ofList (stripQuotes text)))

def defaultMarker : List Char := "default:".toList

def isDefaultLine (line : List Char) : Bool := occurs defaultMarker (lower line)

/-- The text in parentheses right after a marker at the start of a text. -/
def declaredHere? (text : List Char) : Option (List Char) := do
  let rest ← afterStart? defaultMarker text
  let inner ← afterStart? ['('] (trimStart rest)
  let declared := inner.takeWhile (· ≠ ')')
  if declared.isEmpty || declared.length = inner.length then none else some declared

/-- The text in parentheses after the first marker of a line that has such. -/
def declared? : List Char → Option (List Char)
  | [] => none
  | character :: rest => declaredHere? (character :: rest) <|> declared? rest

structure ParameterDoc where
  info : String
  default : Option Value
deriving Repr

namespace ParameterDoc

def empty : ParameterDoc := ⟨"", none⟩

/-- The first line that is neither empty nor a default is the description; the last default counts. -/
def ofLines (lines : List (List Char)) : ParameterDoc :=
  let described := (lines.filter fun line => !isDefaultLine line).map trim
  let defaults := (lines.filter isDefaultLine).filterMap declared?
  ⟨String.ofList ((described.find? fun line => !line.isEmpty).getD []),
    (defaults.getLast?).map readDefault⟩

end ParameterDoc

/-- The parameters of a docstring, in the order of their first blocks. -/
def parameters (docstring : List Char) : List (String × ParameterDoc) :=
  (blocks docstring).map fun block => (block.name, .ofLines block.lines)

end TaskCab.Docstring
