import TaskCab.Number.Decimal
import TaskCab.Text.Blank
import TaskCab.Text.Search

/-!
# Text as a YAML scalar

A text is written plain where that reads back as the same text, and quoted elsewhere. Readers of the older
version of the format take more plain texts for other things than texts; `scalar` quotes those too, while
`plainOrQuoted` keeps to the newer version.
-/

namespace TaskCab.Yaml

open TaskCab.Text

inductive Style where
  | plain
  | single
  | double
deriving DecidableEq, Repr

def hasLeadingZero (text : List Char) : Bool :=
  let digits := (afterStart? ['-'] text <|> afterStart? ['+'] text).getD text
  match digits with
  | '0' :: second :: rest => (second :: rest).all Char.isDigit
  | _ => false

def markedWithin (mark : String) (radix bound : Nat) (text : List Char) : Bool :=
  match afterStart? mark.toList text with
  | some digits => (Integer.readNat? radix digits).any fun number => number < bound
  | none => false

/-- An integer of at most 128 bits: hexadecimal, octal, binary or decimal. -/
def isInteger (text : List Char) : Bool :=
  match text with
  | '-' :: rest =>
      let bound := Nat.pow 2 127 + 1
      markedWithin "0x" 16 bound rest || markedWithin "0o" 8 bound rest ||
        markedWithin "0b" 2 bound rest || markedWithin "" 10 bound rest
  | _ =>
      let rest := (afterStart? ['+'] text).getD text
      let bound := Nat.pow 2 128
      markedWithin "0x" 16 bound rest || markedWithin "0o" 8 bound rest ||
        markedWithin "0b" 2 bound rest || markedWithin "" 10 bound rest

def isFloat (text : List Char) : Bool :=
  let rest := (afterStart? ['+'] text).getD text
  [".inf", ".Inf", ".INF"].any (fun word => rest = word.toList) ||
    ["-.inf", "-.Inf", "-.INF", ".nan", ".NaN", ".NAN"].any (fun word => text = word.toList) ||
    ((rest.length = text.length || (rest.head? ≠ some '+' && rest.head? ≠ some '-')) &&
      (Decimal.read? rest).any fun decimal => decimal.toBinary64.isFinite)

/-- Whether a plain text would be read as something other than a text. -/
def isOtherScalar (text : List Char) : Bool :=
  text.isEmpty || hasLeadingZero text ||
    ["null", "Null", "NULL", "~", "true", "True", "TRUE", "false", "False", "FALSE"].any
      (fun word => text = word.toList) ||
    isInteger text || isFloat text

def startsWithAny (starts : List String) (text : List Char) : Bool :=
  starts.any fun start => start.toList.isPrefixOf text

def endsOrSpaced : List Char → Bool
  | [] => true
  | next :: _ => next = ' '

/-- Whether a colon before a space or the end, or a hash after a space, occurs anywhere. -/
def hasInnerMark : List Char → Bool
  | [] => false
  | character :: rest =>
      (character = ':' && endsOrSpaced rest) || (character = ' ' && rest.head? = some '#') ||
        hasInnerMark rest

/-- Whether the marks of the format keep a text on one line from being plain. -/
def hasMarks (text : List Char) : Bool :=
  match text with
  | [] => true
  | first :: rest =>
      first = ' ' || text.getLast? = some ' ' || startsWithAny ["---", "..."] text ||
        "#,[]\x7b\x7d&*!|>'\"%@\x60".toList.contains first ||
        ((first = '?' || first = ':' || first = '-') && endsOrSpaced rest) || hasInnerMark text

/-- Characters that only a double-quoted text can hold. -/
def isUnprintable (character : Char) : Bool :=
  (isControl character && character ≠ '\n' && character ≠ '\u0085') || character = '\ufeff' ||
    character = '\ufffe' || character = '\uffff'

def styleOf (text : List Char) : Style :=
  if isOtherScalar text then .single
  else if text.any isUnprintable then .double
  else if hasMarks text || text.any (fun c => c = '\u0085' || c = '\u2028' || c = '\u2029') then .single
  else .plain

def singleQuoted (text : List Char) : List Char :=
  '\'' :: text.flatMap (fun c => if c = '\'' then ['\'', '\''] else [c]) ++ ['\'']

def hexadecimal (width code : Nat) : List Char :=
  let digits := (Nat.toDigits 16 code).map Char.toUpper
  List.replicate (width - digits.length) '0' ++ digits

def shortEscapes : List (Char × Char) :=
  [('"', '"'), ('\\', '\\'), ('\x00', '0'), ('\x07', 'a'), ('\x08', 'b'), ('\t', 't'), ('\n', 'n'),
    ('\x0b', 'v'), ('\x0c', 'f'), ('\r', 'r'), ('\x1b', 'e'), ('\u0085', 'N'), ('\u2028', 'L'),
    ('\u2029', 'P')]

def escaped (character : Char) : List Char :=
  match shortEscapes.lookup character with
  | some letter => ['\\', letter]
  | none =>
      if isUnprintable character then
        if character.toNat < 0x100 then '\\' :: 'x' :: hexadecimal 2 character.toNat
        else '\\' :: 'u' :: hexadecimal 4 character.toNat
      else [character]

/-- A text in the newer version of the format. -/
def plainOrQuoted (text : List Char) : List Char :=
  match styleOf text with
  | .plain => text
  | .single => singleQuoted text
  | .double => '"' :: text.flatMap escaped ++ ['"']

def isLineEnd (character : Char) : Bool :=
  character = '\n' || character = '\u0085' || character = '\u2028' || character = '\u2029'

/-- Whether the lines of a text can be written as they stand: none ends in a space, and all characters are
printable. -/
def keepsLines : List Char → Bool
  | [] => true
  | character :: rest =>
      !isUnprintable character && !(character = ' ' && rest.head?.all isLineEnd) && keepsLines rest

def indentLines (indent : Nat) : Bool → List Char → List Char
  | _, [] => []
  | lineStart, character :: rest =>
      (if lineStart && !isLineEnd character then List.replicate indent ' ' else []) ++
        character :: indentLines indent (isLineEnd character) rest

/-- The marks of a text in a block: an indentation where the text starts with blanks, and what becomes of
the line ends at its end. -/
def blockMarks (text : List Char) : List Char :=
  (if text.head?.any (fun c => c = ' ' || isLineEnd c) then ['2'] else []) ++
    match text.reverse with
    | [] => ['-']
    | [last] => if isLineEnd last then ['+'] else ['-']
    | last :: before :: _ =>
        if !isLineEnd last then ['-'] else if isLineEnd before then ['+'] else []

/-- A text after its key: in a block if it has several lines, and on the line of the key otherwise. Ends
with a line feed. -/
def afterKey (indent : Nat) (text : List Char) : List Char :=
  if !text.contains '\n' then ' ' :: plainOrQuoted text ++ ['\n']
  else if keepsLines text then
    let written := ' ' :: '|' :: blockMarks text ++ '\n' :: indentLines indent true text
    if text.getLast?.any isLineEnd then written else written ++ ['\n']
  else ' ' :: '"' :: text.flatMap escaped ++ ['"', '\n']

def matchesWord (word text : List Char) : Bool :=
  word.length = text.length &&
    (word.zip text).all fun (letter, c) => c.toLower = letter || (letter = 's' && c = 'ſ')

def oldKeywords : List String :=
  ["y", "yes", "n", "no", "true", "false", "on", "off", "null", "~", "=", "<<"]

def isOldKeyword (text : List Char) : Bool :=
  oldKeywords.any fun word => matchesWord word.toList text

def isOldExponent : List Char → Bool
  | [] => true
  | letter :: rest =>
      let digits := (afterStart? ['-'] rest <|> afterStart? ['+'] rest).getD rest
      letter.toLower = 'e' && !digits.isEmpty && digits.all Char.isDigit

def isDigitOrUnderscore (character : Char) : Bool := character.isDigit || character = '_'

def isOldFraction : List Char → Bool
  | '.' :: rest => isOldExponent (rest.dropWhile isDigitOrUnderscore)
  | rest => isOldExponent rest

/-- Further places to the base sixty, one or two digits each, then a fraction. -/
def isSexagesimal : Nat → List Char → Bool
  | 0, _ => false
  | fuel + 1, ':' :: rest =>
      let digits := rest.takeWhile Char.isDigit
      let inRange :=
        match digits with
        | [_] => true
        | [tens, _] => decide (tens ≤ '5')
        | _ => false
      inRange && isSexagesimal fuel (rest.drop digits.length)
  | _, rest => isOldFraction rest

def isOldMarked (mark : Char) (radix : Nat) (text : List Char) : Bool :=
  match text with
  | '0' :: letter :: digits =>
      letter.toLower = mark && !digits.isEmpty &&
        digits.all fun c => c = '_' || (Integer.digitValue? radix c).isSome
  | _ => false

/-- A number of the older version: with underscores, to the base sixty, or without digits at a point. -/
def isOldNumber (text : List Char) : Bool :=
  let rest := (afterStart? ['-'] text <|> afterStart? ['+'] text).getD text
  isOldMarked 'b' 2 rest || isOldMarked 'o' 8 rest || isOldMarked 'x' 16 rest ||
    matchesWord ".inf".toList rest || matchesWord ".nan".toList rest ||
    match rest with
    | '.' :: _ => isOldFraction rest
    | first :: _ =>
        first.isDigit && isSexagesimal (rest.length + 1) (rest.dropWhile isDigitOrUnderscore)
    | [] => false

/-- Whether a text starts with a date: four digits, and twice a hyphen with one or two digits. -/
def startsWithDate (text : List Char) : Bool :=
  let year := text.take 4
  year.length = 4 && year.all Char.isDigit &&
    match text.drop 4 with
    | '-' :: month :: rest =>
        month.isDigit &&
          match (if rest.head?.any Char.isDigit then rest.drop 1 else rest) with
          | '-' :: day :: _ => day.isDigit
          | _ => false
    | _ => false

/-- Whether the older version reads a plain text as something other than a text. -/
def isOldScalar (text : List Char) : Bool :=
  isOldKeyword text || isOldNumber text || startsWithDate text

def needsEscape (character : Char) : Bool :=
  isControl character || character = '\u2028' || character = '\u2029' || character = '\ufeff'

def escapeChar (character : Char) : List Char :=
  if character = '"' then ['\\', '"']
  else if character = '\\' then ['\\', '\\']
  else if character = '\n' then ['\\', 'n']
  else if character = '\t' then ['\\', 't']
  else if character = '\r' then ['\\', 'r']
  else if character = '\x00' then ['\\', '0']
  else if needsEscape character then '\\' :: 'u' :: hexadecimal 4 character.toNat
  else [character]

def doubleQuoted (text : List Char) : List Char := '"' :: text.flatMap escapeChar ++ ['"']

/-- A text on one line that both versions of the format read as a text. Blanks at the end of a plain text
are lost. -/
def scalar (text : List Char) : List Char :=
  if text.any needsEscape then doubleQuoted text
  else
    let written := trimEnd (plainOrQuoted text)
    if written = text && isOldScalar text then singleQuoted text else written

end TaskCab.Yaml
