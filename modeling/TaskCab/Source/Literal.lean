import TaskCab.Source.Compact
import TaskCab.Source.Tree
import TaskCab.Value

/-!
# Literals

The value of an expression that is plain data: a constant, a number, a string, a display of such values,
a signed number, or one of the constructors `int`, `float`, `bool` and `str` around a value. Every other
expression keeps its text.

The value of a bracket depends only on the values of the pieces inside it, so that reading goes from the
inside out. A line joined by a backslash is allowed within a signed number, a call and an entry of a map,
and right in front of a string; elsewhere between the items of a bracket it makes the expression no plain
data.
-/

namespace TaskCab

/-- What an expression of a task source amounts to: a value, or its own compact text. -/
inductive SourceValue where
  | decoded (value : Value)
  | verbatim (text : String)
deriving Repr

namespace SourceValue

def value? : SourceValue → Option Value
  | decoded value => some value
  | verbatim _ => none

def displayText : SourceValue → String
  | decoded value => value.plainText
  | verbatim text => text

def toValue : SourceValue → Value
  | decoded value => value
  | verbatim text => .str text

/-- Equality: a value never equals a text that was kept. -/
def same : SourceValue → SourceValue → Bool
  | decoded left, decoded right => left.same right
  | verbatim left, verbatim right => left == right
  | _, _ => false

end SourceValue

namespace Source.Literal

def dropUnderscores (text : List Char) : List Char := text.filter (· ≠ '_')

/-- An integer token: hexadecimal, octal, binary or decimal, within the range of words. -/
def integer? (text : List Char) : Option Int64 :=
  let digits := (dropUnderscores text).map Char.toLower
  let value :=
    match digits with
    | '0' :: 'x' :: rest => Integer.readNat? 16 rest
    | '0' :: 'o' :: rest => Integer.readNat? 8 rest
    | '0' :: 'b' :: rest => Integer.readNat? 2 rest
    | digits => Integer.readNat? 10 digits
  value.bind fun number => Integer.word? number

def float? (text : List Char) : Option Binary64 :=
  (Decimal.read? (dropUnderscores text)).map Decimal.toBinary64

/-- Part of an expression: a token, a value in brackets, or what round brackets hold, which are values
in a tuple if there are commas. A value is missing where the brackets hold no plain data. Brackets keep
whether their line is joined to the one before. -/
inductive Part where
  | token (token : Token)
  | value (joined : Bool) (value : Option Value)
  | round (joined : Bool) (items : Option (List Value)) (isTuple : Bool)
deriving Repr

namespace Part

def isSymbol (symbol : String) : Part → Bool
  | .token single => single.isSymbol symbol
  | _ => false

def joined : Part → Bool
  | .token single => single.joined
  | .value joined _ => joined
  | .round joined .. => joined

def startsJoined (parts : List Part) : Bool := parts.head?.any joined

def cut (symbol : String) : List Part → List (List Part)
  | [] => [[]]
  | part :: rest =>
      if isSymbol symbol part then [] :: cut symbol rest
      else
        match cut symbol rest with
        | [] => [[part]]
        | piece :: pieces => (part :: piece) :: pieces

def cutOnce? (symbol : String) : List Part → Option (List Part × List Part)
  | [] => none
  | part :: rest =>
      if isSymbol symbol part then some ([], rest)
      else (cutOnce? symbol rest).map fun (before, after) => (part :: before, after)

/-- The pieces between commas. One comma may end them. -/
def pieces (parts : List Part) : List (List Part) :=
  let cuts := cut "," parts
  if cuts.getLast?.any List.isEmpty then cuts.dropLast else cuts

/-- Whether no line is joined in front of a piece or a comma. -/
def unjoined (parts : List Part) : Bool :=
  !(pieces parts).any startsJoined && !parts.any fun part => isSymbol "," part && joined part

end Part

def token? (token : Token) : Option Value :=
  match token.kind with
  | .integer => (integer? token.text).map .int
  | .float => (float? token.text).map .float
  | .word =>
      if token.text = "None".toList then some .null
      else if token.text = "True".toList then some (.bool true)
      else if token.text = "False".toList then some (.bool false)
      else none
  | _ => none

def strings? : List Part → Option (List Char)
  | [] => some []
  | .token token :: rest => do
      if token.kind ≠ .string || Part.startsJoined rest then none
      let text ← Quoted.text? token.text
      let following ← strings? rest
      some (text ++ following)
  | _ :: _ => none

def negate? : Value → Option Value
  | .int word => (Integer.word? (-word.toInt)).map .int
  | .float number => some (.float number.neg)
  | _ => none

def affirm? : Value → Option Value
  | .int word => some (.int word)
  | .float number => some (.float number)
  | _ => none

def toBool? : Value → Option Value
  | .bool truth => some (.bool truth)
  | .int word => some (.bool (word != 0))
  | .float number => some (.bool !number.isZero)
  | .str text => some (.bool !text.isEmpty)
  | _ => none

def toInt? : Value → Option Value
  | .int word => some (.int word)
  | .bool truth => some (.int (if truth then 1 else 0))
  | .float number =>
      if number.isFinite then some (.int (Integer.clamp number.truncate)) else none
  | .str text => (Integer.readWord? (Text.trim text.toList)).map .int
  | _ => none

def toFloat? : Value → Option Value
  | .float number => some (.float number)
  | .int word => some (.float (.ofInt word.toInt))
  | .bool truth => some (.float (.ofInt (if truth then 1 else 0)))
  | .str text => (Binary64.read? (Text.trim text.toList)).map .float
  | _ => none

def toStr? (value : Value) : Option Value :=
  if value.isScalar then some (.str value.plainText) else none

def construct? (name : List Char) (value : Value) : Option Value :=
  if name = "bool".toList then toBool? value
  else if name = "int".toList then toInt? value
  else if name = "float".toList then toFloat? value
  else if name = "str".toList then toStr? value
  else none

/-- What round brackets stand for by themselves. -/
def ofRound (items : List Value) (isTuple : Bool) : Option Value :=
  match isTuple, items with
  | false, [item] => some item
  | _, items => some (.list items)

def item? : List Part → Option Value
  | [] => none
  | [.token token] =>
      if token.kind = .string then (strings? [.token token]).map fun text => .str (String.ofList text)
      else token? token
  | [.value _ value] => value
  | [.round _ items isTuple] => items.bind fun items => ofRound items isTuple
  | [.token name, .round _ (some [argument]) isTuple] =>
      if name.isSymbol "-" then (ofRound [argument] isTuple).bind negate?
      else if name.isSymbol "+" then (ofRound [argument] isTuple).bind affirm?
      else if name.kind = .word then construct? name.text argument
      else none
  | .token token :: rest =>
      if token.isSymbol "-" then (item? rest).bind negate?
      else if token.isSymbol "+" then (item? rest).bind affirm?
      else (strings? (.token token :: rest)).map fun text => .str (String.ofList text)
  | _ :: _ => none

def items? (parts : List Part) : Option (List Value) :=
  if Part.unjoined parts then (Part.pieces parts).mapM item? else none

def entry? (parts : List Part) : Option (String × Value) := do
  let (before, after) ← Part.cutOnce? ":" parts
  match ← item? before with
  | .str key => some (key, ← item? after)
  | _ => none

/-- Curly brackets hold a map if there is a colon in the first piece, or nothing but at most a comma. -/
def ofCurly (parts : List Part) : Option Value :=
  match Part.pieces parts with
  | [] => some (.map [])
  | [[]] => if Part.unjoined parts then some (.map []) else none
  | piece :: pieces =>
      if piece.any (Part.isSymbol ":") then
        if Part.unjoined parts then
          ((piece :: pieces).mapM entry?).map fun entries => .map (Entries.ofList entries)
        else none
      else (items? parts).map .list

def hasComma (parts : List Part) : Bool := parts.any (Part.isSymbol ",")

/-- What brackets hold, unless the line of the closing one is joined to the one before. -/
def closed {Held : Type} (closing : Token) (held : Option Held) : Option Held :=
  if closing.joined then none else held

mutual

def part : Tree → Part
  | .leaf token => .token token
  | .group .square opening inner closing =>
      .value opening.joined (closed closing ((items? (parts inner)).map .list))
  | .group .curly opening inner closing =>
      .value opening.joined (closed closing (ofCurly (parts inner)))
  | .group .round opening inner closing =>
      let inside := parts inner
      .round opening.joined (closed closing (items? inside)) (hasComma inside)

def parts : List Tree → List Part
  | [] => []
  | tree :: rest => part tree :: parts rest

end

def value? (trees : List Tree) : Option Value := item? (parts trees)

def ofTrees (trees : List Tree) : SourceValue :=
  match value? trees with
  | some value => .decoded value
  | none => .verbatim (String.ofList (Compact.text (Tree.text trees)))

def dropSemicolon (parts : List Part) : List Part :=
  match parts.getLast? with
  | some last => if Part.isSymbol ";" last && !Part.joined last then parts.dropLast else parts
  | none => parts

/-- The value of a line; values with commas between them make a list. -/
def lineValue? (parts : List Part) : Option Value :=
  let parts := dropSemicolon parts
  if hasComma parts then (items? parts).map .list
  else if Part.startsJoined parts then none
  else item? parts

/-- The value of a text that is one line and plain data. -/
def read? (text : List Char) : Option Value :=
  match Line.ofText (Text.trim text) with
  | [line] => do
      let trees ← Tree.ofTokens? line.tokens
      lineValue? (parts trees)
  | _ => none

def decode (text : List Char) : SourceValue :=
  match read? text with
  | some value => .decoded value
  | none => .verbatim (String.ofList (Compact.text text))

end Source.Literal

end TaskCab
