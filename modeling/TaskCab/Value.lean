import TaskCab.Entries
import TaskCab.Number.Shortest
import TaskCab.Text.Search

/-!
# Values

The data that defaults are made of, and the literal that denotes each value in a task source.
-/

namespace TaskCab

inductive Value where
  | null
  | bool (truth : Bool)
  | int (word : Int64)
  | float (number : Binary64)
  | str (text : String)
  | list (items : List Value)
  | map (entries : List (String × Value))
deriving Repr

namespace Value

def typeName : Value → String
  | null => "NoneType"
  | bool _ => "bool"
  | int _ => "int"
  | float _ => "float"
  | str _ => "str"
  | list _ => "list"
  | map _ => "dict"

def isScalar : Value → Bool
  | bool _ | int _ | float _ | str _ => true
  | null | list _ | map _ => false

def isBool : Value → Bool
  | bool _ => true
  | _ => false

/-- Whether a value is a list of truth values; the empty list is one. -/
def isBoolList : Value → Bool
  | list items => items.all isBool
  | _ => false

def text? : Value → Option String
  | str text => some text
  | _ => none

/-- Floats have a plain point from `1e-4` up to `1e16` and an exponent of a sign and at least two digits
elsewhere. Whole numbers keep `.0`, and a tie goes up. -/
def floatLayout : NumberLayout := ⟨.up, -4, 15, true, true, 2⟩

def floatLiteral (number : Binary64) : List Char :=
  if number.isNaN then "nan".toList
  else if number.isInfinite then (if number.isNegative then "-inf" else "inf").toList
  else floatLayout.render number

/-- Single quotes enclose a text, double quotes one that holds single quotes and no double ones. -/
def quoteFor (text : List Char) : Char :=
  if text.contains '\'' && !text.contains '"' then '"' else '\''

def escapeChar (quote character : Char) : List Char :=
  if character = '\\' then ['\\', '\\']
  else if character = '\n' then ['\\', 'n']
  else if character = '\t' then ['\\', 't']
  else if character = '\r' then ['\\', 'r']
  else if character = quote then ['\\', character]
  else [character]

def textLiteral (text : List Char) : List Char :=
  let quote := quoteFor text
  quote :: text.flatMap (escapeChar quote) ++ [quote]

def enclose (opening closing : Char) (items : List (List Char)) : List Char :=
  opening :: Text.joinWith [',', ' '] items ++ [closing]

mutual

def literal : Value → List Char
  | null => "None".toList
  | bool true => "True".toList
  | bool false => "False".toList
  | int word => Integer.render word.toInt
  | float number => floatLiteral number
  | str text => textLiteral text.toList
  | list items => enclose '[' ']' (itemLiterals items)
  | map entries => enclose '\x7b' '\x7d' (entryLiterals entries)

def itemLiterals : List Value → List (List Char)
  | [] => []
  | item :: rest => literal item :: itemLiterals rest

def entryLiterals : List (String × Value) → List (List Char)
  | [] => []
  | (key, value) :: rest =>
      (textLiteral key.toList ++ ':' :: ' ' :: literal value) :: entryLiterals rest

end

def literalText (value : Value) : String := String.ofList (literal value)

/-- The literal, or the text itself for a text. -/
def plainText : Value → String
  | str text => text
  | value => literalText value

mutual

/-- Equality of values: floats compare as numbers, and the order of entries does not count. -/
def same : Value → Value → Bool
  | null, null => true
  | bool left, bool right => left == right
  | int left, int right => left == right
  | float left, float right => left.numericEq right
  | str left, str right => left == right
  | list left, list right => sameItems left right
  | map left, map right => left.length == right.length && sameEntries left right
  | _, _ => false

def sameItems : List Value → List Value → Bool
  | [], [] => true
  | left :: lefts, right :: rights => same left right && sameItems lefts rights
  | _, _ => false

def sameEntries : List (String × Value) → List (String × Value) → Bool
  | [], _ => true
  | (key, value) :: rest, entries =>
      (match Entries.get? key entries with
        | some other => same value other
        | none => false) && sameEntries rest entries

end

end Value

end TaskCab
