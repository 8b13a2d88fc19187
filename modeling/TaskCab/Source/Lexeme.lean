import TaskCab.Source.Quoted

/-!
# Lexemes

A task source is cut into lexemes: each character belongs to exactly one, so their texts joined give the
source back. What stands between tokens (blanks, comments, joined lines) is kept as lexemes too, because
the text of an expression includes it.
-/

namespace TaskCab.Source

inductive LexemeKind where
  | blank
  | newline
  | comment
  | joinedLine
  /-- A character that is skipped, but only in front of a token that is neither a string nor the end of
  a line. -/
  | unseen
  | word
  | integer
  | float
  | string
  | symbol
  /-- A character that starts nothing. -/
  | stray
deriving DecidableEq, Repr

structure Lexeme where
  kind : LexemeKind
  text : List Char
deriving DecidableEq, Repr

namespace Lexeme

def isBlank (character : Char) : Bool :=
  character = ' ' || character = '\t' || character = '\r' || character = '\x0c'

def isUnseen (character : Char) : Bool :=
  character = '\x0b' || character = '\ufeff' || character = '\u200b' || character = '\u2060'

def isWordStart (character : Char) : Bool :=
  character.isAlpha || character = '_' || (0x80 ≤ character.toNat && !isUnseen character)

def isWordPart (character : Char) : Bool := isWordStart character || character.isDigit

/-- The length of digits in groups that underscores separate. One underscore may also end them. -/
def decimalLength : Bool → List Char → Nat
  | _, [] => 0
  | afterDigit, character :: rest =>
      if character.isDigit then 1 + decimalLength true rest
      else if character = '_' && afterDigit then 1 + decimalLength false rest
      else 0

/-- The length of digits of a radix, where each underscore has a digit after it. -/
def radixLength (radix : Nat) : List Char → Nat
  | [] => 0
  | character :: rest =>
      let isDigit (c : Char) := (Integer.digitValue? radix c).isSome
      if isDigit character then 1 + radixLength radix rest
      else if character = '_' && rest.head?.any isDigit then 1 + radixLength radix rest
      else 0

def letterLength (letters : String) (text : List Char) : Nat :=
  if text.head?.any fun c => letters.toList.contains c then 1 else 0

def exponentLength : List Char → Nat
  | letter :: rest =>
      if letter = 'e' || letter = 'E' then
        let sign := letterLength "+-" rest
        let digits := decimalLength false (rest.drop sign)
        if digits = 0 then 0 else 1 + sign + digits
      else 0
  | [] => 0

def markedLength (radix : Nat) (rest : List Char) : Nat :=
  let digits := radixLength radix rest
  if digits = 0 then 0 else 2 + digits + letterLength "lL" (rest.drop digits)

/-- A float that has `whole` characters of digits before its point or exponent. -/
def floatLength (whole : Nat) (rest : List Char) : Nat :=
  let fraction :=
    match rest with
    | '.' :: digits => 1 + decimalLength false digits
    | _ => 0
  let exponent := exponentLength (rest.drop fraction)
  if fraction + exponent = 0 || (whole = 0 && fraction < 2) then 0
  else
    let length := fraction + exponent
    whole + length + letterLength "jJ" (rest.drop length)

def decimalNumber (text : List Char) : LexemeKind × Nat :=
  let whole := decimalLength false text
  let rest := text.drop whole
  let float := floatLength whole rest
  if float = 0 then (.integer, if whole = 0 then 0 else whole + letterLength "lLjJ" rest)
  else (.float, float)

/-- The number that a text starts with; a length of zero means none. -/
def number (text : List Char) : LexemeKind × Nat :=
  let marked :=
    match text with
    | '0' :: mark :: rest =>
        if mark = 'x' || mark = 'X' then markedLength 16 rest
        else if mark = 'o' || mark = 'O' then markedLength 8 rest
        else if mark = 'b' || mark = 'B' then markedLength 2 rest
        else 0
    | _ => 0
  if marked = 0 then decimalNumber text else (.integer, marked)

def longSymbols : List (List Char) :=
  ["**=", "//=", ">>=", "<<=", "...", "**", "//", ">>", "<<", "<=", ">=", "==", "!=", "<>", "->", ":=",
    "+=", "-=", "*=", "/=", "%=", "@=", "&=", "|=", "^="].map String.toList

def symbolLength (text : List Char) : Nat :=
  match longSymbols.find? fun symbol => symbol.isPrefixOf text with
  | some symbol => symbol.length
  | none => 1

def isSymbol (character : Char) : Bool :=
  "()[]\x7b\x7d,:;.=+-*/%@&|^~<>!".toList.contains character

def first (character : Char) (rest : List Char) : LexemeKind × Nat :=
  let text := character :: rest
  if character = '\n' then (.newline, 1)
  else if isBlank character then (.blank, 1)
  else if character = '#' then
    (.comment, 1 + (rest.takeWhile fun c => c ≠ '\n' && c ≠ '\x00').length)
  else if character = '\\' then
    match rest with
    | '\n' :: _ => (.joinedLine, 2)
    | '\r' :: '\n' :: _ => (.joinedLine, 3)
    | _ => (.stray, 1)
  else if isUnseen character then (.unseen, 1)
  else
    match Quoted.opening? text with
    | some _ =>
        match Quoted.length? text with
        | some length => (.string, length)
        | none => (.stray, 1)
    | none =>
        let (kind, length) := number text
        if length ≠ 0 then (kind, length)
        else if isWordStart character then (.word, 1 + (rest.takeWhile isWordPart).length)
        else if isSymbol character then (.symbol, symbolLength text)
        else (.stray, 1)

/-- The lexemes of a text after as many characters as belong to the lexeme before. -/
def scanFrom : Nat → List Char → List Lexeme
  | _, [] => []
  | skip + 1, _ :: rest => scanFrom skip rest
  | 0, character :: rest =>
      let (kind, length) := first character rest
      ⟨kind, (character :: rest).take length⟩ :: scanFrom (length - 1) rest

/-- The lexemes of a text. A byte order mark at its very start counts as a blank. -/
def scan (text : List Char) : List Lexeme :=
  match text with
  | '\ufeff' :: rest => ⟨.blank, ['\ufeff']⟩ :: scanFrom 0 rest
  | text => scanFrom 0 text

end Lexeme

end TaskCab.Source
