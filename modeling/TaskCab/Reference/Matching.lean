import TaskCab.Source.Literal
import TaskCab.Text.Lowercase
import TaskCab.Text.WordChar

/-!
# Matching defaults and descriptions

A default of a document and one of a reference table are normalized to values and then compared: first as
numbers and data, then by rules for the ways in which reference tables write typed values, arrays and
quantities.
-/

namespace TaskCab.Matching

open TaskCab.Text TaskCab.Source

/-- The value that a published default stands for: data where the text is a literal, and else the text in
lower case. Two ways to write an array are known by heart. -/
def normalizeText (raw : List Char) : Value :=
  let text := trim raw
  if text = "numpy.array([])".toList then .list []
  else if text = "(boolArray=[True])".toList then .list [.bool true]
  else
    match Literal.decode text with
    | .decoded value => value
    | .verbatim _ => .str (String.ofList (lower text))

def normalizeLocal : Option SourceValue → Value
  | none => .null
  | some (.verbatim text) => normalizeText text.toList
  | some (.decoded (.str text)) => normalizeText text.toList
  | some (.decoded value) => value

def number? : Value → Option Binary64
  | .bool truth => some (.ofInt (if truth then 1 else 0))
  | .int word => some (.ofInt word.toInt)
  | .float number => some number
  | _ => none

mutual

/-- Equality of data. Truth values and numbers compare as numbers, maps by their keys. -/
def looseEq : Value → Value → Bool
  | .null, .null => true
  | .str left, .str right => left == right
  | .list left, .list right => looseEqItems left right
  | .map left, .map right => left.length == right.length && looseEqEntries left right
  | left, right =>
      match number? left, number? right with
      | some left, some right => left.numericEq right
      | _, _ => false

def looseEqItems : List Value → List Value → Bool
  | [], [] => true
  | left :: lefts, right :: rights => looseEq left right && looseEqItems lefts rights
  | _, _ => false

def looseEqEntries : List (String × Value) → List (String × Value) → Bool
  | [], _ => true
  | (key, value) :: rest, entries =>
      (match Entries.get? key entries with
        | some other => looseEq value other
        | none => false) && looseEqEntries rest entries

end

/-- Whether a text is a scalar wrapped in the name of its type, as a literal or bare. -/
def isTyped (scalar : Value) (text : List Char) : Bool :=
  let wrapped (inner : List Char) := scalar.typeName.toList ++ '(' :: inner ++ [')']
  sameIgnoringCase text (wrapped scalar.literal) ||
    sameIgnoringCase text (wrapped scalar.plainText.toList)

def isEmptyAmongBools (left right : List Value) : Bool :=
  left.all Value.isBool && right.all Value.isBool && (left.isEmpty || right.isEmpty)

/-- Takes out the brackets of arrays, after as many characters as are already taken. -/
def dropArrayMarks : Nat → List Char → List Char
  | _, [] => []
  | skip + 1, _ :: rest => dropArrayMarks skip rest
  | 0, character :: rest =>
      if "numpy.array(".toList.isPrefixOf (character :: rest) then dropArrayMarks 11 rest
      else if character = ')' || character = '[' || character = ']' then dropArrayMarks 0 rest
      else character :: dropArrayMarks 0 rest

def dropConstructors : Nat → List Char → List Char
  | _, [] => []
  | skip + 1, _ :: rest => dropConstructors skip rest
  | 0, character :: rest =>
      if "int(".toList.isPrefixOf (character :: rest) then dropConstructors 3 rest
      else if "float(".toList.isPrefixOf (character :: rest) then dropConstructors 5 rest
      else character :: dropConstructors 0 rest

def arrayItem? (piece : List Char) : Option Value :=
  let item := trim piece
  let digits := (afterStart? ['-'] item).getD item
  if !digits.isEmpty && digits.all Char.isDigit then (Integer.readWord? item).map .int
  else (Binary64.read? item).map .float

def numberArray? (text : List Char) : Option (List Value) :=
  let bare := dropConstructors 0 (dropArrayMarks 0 text)
  if isBlankText bare then some [] else (splitWhere (· == ',') bare).mapM arrayItem?

/-- What follows a key, which may have a quote after it, a colon and blanks. -/
def afterKey? (key : String) (text : List Char) : Option (List Char) := do
  let rest ← afterStart? key.toList text
  let rest ← afterStart? [':'] ((afterStart? ['\''] rest).getD rest)
  some (trimStart rest)

/-- The digits of a float in its constructor: a sign, digits, and a point with or without digits. -/
def floatDigits? (text : List Char) : Option (List Char) := do
  let inner ← afterStart? "float(".toList text
  let argument := inner.takeWhile (· ≠ ')')
  let unsigned := (afterStart? ['-'] argument).getD argument
  let whole := unsigned.takeWhile isDecimalDigit
  let rest := unsigned.drop whole.length
  let fraction := (afterStart? ['.'] rest).getD rest
  if whole.isEmpty || argument.length = inner.length || !fraction.all isDecimalDigit then none
  else some argument

def quotedWord? (text : List Char) : Option (List Char) := do
  let inner ← afterStart? ['\''] text
  let word := inner.takeWhile isWordChar
  if word.isEmpty || (inner.drop word.length).head? ≠ some '\'' then none else some word

def firstIn? {Item : Type} (reader : List Char → Option Item) : List Char → Option Item
  | [] => none
  | character :: rest => reader (character :: rest) <|> firstIn? reader rest

def quantity? (text : List Char) : Option (List (String × Value)) := do
  let digits ← firstIn? (fun text => (afterKey? "value" text).bind floatDigits?) text
  let number ← Binary64.read? digits
  let unit ← firstIn? (fun text => (afterKey? "unit" text).bind quotedWord?) text
  some [("value", .float number), ("unit", .str (String.ofList unit))]

/-- Equality of a part of a quantity: texts compare without regard to case. -/
def samePart : Value → Value → Bool
  | .str left, .str right => sameIgnoringCase left.toList right.toList
  | left, right => looseEq left right

def sameQuantity (entries quantity : List (String × Value)) : Bool :=
  entries.length == quantity.length && quantity.all fun (key, expected) =>
    (Entries.get? key entries).any fun actual => samePart actual expected

def matchesDefault (own reference : Value) : Bool :=
  looseEq own reference ||
    match own, reference with
    | .list left, .list right => isEmptyAmongBools left right
    | .list items, .str text =>
        (numberArray? text.toList).any fun numbers => looseEqItems items numbers
    | .map entries, .str text => (quantity? text.toList).any (sameQuantity entries)
    | .map entries, .map quantity => sameQuantity entries quantity
    | own, .str text => own.isScalar && isTyped own text.toList
    | _, _ => false

/-- Whether a description holds the first fifty characters of a published one, in any letter case. -/
def matchesDescription (own reference : List Char) : Bool :=
  occurs (lower (reference.take 50)) (lower own)

end TaskCab.Matching
