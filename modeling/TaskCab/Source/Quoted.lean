import TaskCab.Text.Blank
import TaskCab.Number.Integer

/-!
# Quoted text

A string literal is a run of letters, a quote of one or three marks, a body and the same quote again.
This module finds where a literal ends and reads the text that it stands for.

A body is cut into plain text and escapes. A backslash that starts no escape stands for itself. In a
literal with single marks a line feed may stand only where no plain text has been read since the last
escape; in a raw literal a backslash carries the mark, the backslash or the line end after it along.
-/

namespace TaskCab.Source.Quoted

open TaskCab.Text

structure Style where
  raw : Bool
  bytes : Bool
  format : Bool
  mark : Char
  triple : Bool
deriving DecidableEq, Repr

def isFlag (letter : Char) : Bool := "rRuUbBfF".toList.contains letter

def isMark (character : Char) : Bool :=
  character = '\'' || character = '"' || character = '`'

/-- The style of the literal that a text starts with, and the length of its opening. -/
def opening? (text : List Char) : Option (Style × Nat) :=
  let flags := text.takeWhile isFlag
  match text.drop flags.length with
  | [] => none
  | mark :: rest =>
      if isMark mark then
        let triple := mark ≠ '`' && [mark, mark].isPrefixOf rest
        let lowered := flags.map Char.toLower
        some (⟨lowered.contains 'r', lowered.contains 'b', lowered.contains 'f', mark, triple⟩,
          flags.length + if triple then 3 else 1)
      else none

def isHexDigit (character : Char) : Bool := (Integer.digitValue? 16 character).isSome

def isOctalDigit (character : Char) : Bool := (Integer.digitValue? 8 character).isSome

/-- The number of characters of an escape after its backslash; zero where the backslash stands alone. -/
def escapeLength : List Char → Nat
  | [] => 0
  | letter :: rest =>
      let hex (width : Nat) :=
        if (rest.take width).length = width && (rest.take width).all isHexDigit then width + 1 else 0
      if letter = 'u' then hex 4
      else if letter = 'U' then hex 8
      else if letter = 'x' then hex 2
      else if letter.isDigit then 1 + ((rest.take 2).takeWhile Char.isDigit).length
      else if letter = '\n' then 1
      else if letter = '\r' then (if rest.head? = some '\n' then 2 else 0)
      else if letter = 'N' then
        match rest with
        | '\x7b' :: name =>
            let inside := name.takeWhile fun c => c ≠ '\x7d' && c ≠ '\x00'
            if inside.isEmpty || (name.drop inside.length).head? ≠ some '\x7d' then 0
            else inside.length + 3
        | _ => 0
      else if "'\"abfrntv\\".toList.contains letter then 1
      else 0

/-- What a backslash carries along in a raw literal: a mark or a backslash, then a line end. -/
def rawLength (mark : Char) (text : List Char) : Nat :=
  let lineEnd : List Char → Nat
    | '\r' :: '\n' :: _ => 2
    | '\r' :: _ => 1
    | '\n' :: _ => 1
    | _ => 0
  match text with
  | character :: rest =>
      if character = mark || character = '\\' then 1 + lineEnd rest else lineEnd text
  | [] => 0

def backslashLength (style : Style) (rest : List Char) : Nat :=
  if style.raw then rawLength style.mark rest
  else if style.bytes && (rest.head?.any fun letter => "NuU".toList.contains letter) then 2
  else escapeLength rest

def closes (style : Style) (text : List Char) : Bool :=
  (if style.triple then [style.mark, style.mark, style.mark] else [style.mark]).isPrefixOf text

/-- The number of characters of a body together with its closing quote. The state says whether plain
text has been read since the last escape, and how many characters are already spoken for. -/
def closingFrom? (style : Style) : Bool → Nat → List Char → Option Nat
  | _, _, [] => none
  | plain, skip + 1, _ :: rest => (closingFrom? style plain skip rest).map (· + 1)
  | plain, 0, character :: rest =>
      if character = '\x00' then none
      else if character = '\\' then
        (closingFrom? style (plain && style.raw) (backslashLength style rest) rest).map (· + 1)
      else if closes style (character :: rest) then some (if style.triple then 3 else 1)
      else if character = '\n' && plain && !style.triple then none
      else (closingFrom? style true 0 rest).map (· + 1)

/-- What encloses the place that has been reached inside a literal with replacement fields. -/
inductive Enclosing where
  | body (style : Style)
  | field (depth : Nat)
  | format
  | comment
deriving DecidableEq, Repr

/-- A step in the text of a literal: the enclosings after it, and the characters it takes beside the
first. -/
def bodyStep (style : Style) (outer : List Enclosing) (character : Char) (rest : List Char) :
    List Enclosing × Nat :=
  let here := .body style :: outer
  if character = '\\' then (here, backslashLength style rest)
  else if closes style (character :: rest) then (outer, if style.triple then 2 else 0)
  else if style.format && (character = '\x7b' || character = '\x7d') then
    if rest.head? = some character then (here, 1)
    else if character = '\x7b' then (.field 0 :: here, 0)
    else (here, 0)
  else (here, 0)

def isWordPart (character : Char) : Bool :=
  character.isAlphanum || character = '_' || 0x80 ≤ character.toNat

def fieldStep (depth : Nat) (outer : List Enclosing) (character : Char) (rest : List Char) :
    List Enclosing × Nat :=
  match opening? (character :: rest) with
  | some (style, length) => (.body style :: .field depth :: outer, length - 1)
  | none =>
      if isWordPart character then (.field depth :: outer, (rest.takeWhile isWordPart).length)
      else if character = '#' then (.comment :: .field depth :: outer, 0)
      else if "([\x7b".toList.contains character then (.field (depth + 1) :: outer, 0)
      else if ")]\x7d".toList.contains character then
        (if depth = 0 then outer else .field (depth - 1) :: outer, 0)
      else if character = ':' && depth = 0 then (.format :: outer, 0)
      else (.field depth :: outer, 0)

def enclosingStep (here : Enclosing) (outer : List Enclosing) (character : Char)
    (rest : List Char) : List Enclosing × Nat :=
  match here with
  | .body style => bodyStep style outer character rest
  | .field depth => fieldStep depth outer character rest
  | .format =>
      if character = '\x7b' then (.field 0 :: .format :: outer, 0)
      else if character = '\x7d' then (outer, 0)
      else (.format :: outer, 0)
  | .comment => if character = '\n' then (outer, 0) else (.comment :: outer, 0)

/-- The number of characters up to the end of everything that encloses the current place. -/
def closingFields? : List Enclosing → Nat → List Char → Option Nat
  | [], skip, _ => some skip
  | _ :: _, _, [] => none
  | enclosing, skip + 1, _ :: rest => (closingFields? enclosing skip rest).map (· + 1)
  | here :: outer, 0, character :: rest =>
      let (enclosing, skip) := enclosingStep here outer character rest
      (closingFields? enclosing skip rest).map (· + 1)

def length? (text : List Char) : Option Nat := do
  let (style, length) ← opening? text
  let body := text.drop length
  let closing ← if style.format then closingFields? [.body style] 0 body
    else closingFrom? style false 0 body
  some (length + closing)

def char? (code : Nat) : Option Char :=
  if code.isValidChar then some (Char.ofNat code) else none

/-- The meaning of a hexadecimal escape of a fixed width: the text it stands for and its length after
the backslash. One that is cut short, or names no character, stands for itself. -/
def hexMeaning (letter : Char) (width : Nat) (rest : List Char) : List Char × Nat :=
  let digits := (rest.take width).takeWhile isHexDigit
  let written := (['\\', letter] ++ digits, digits.length + 1)
  if digits.length = width then
    match (Integer.readDigits? 16 0 digits).bind char? with
    | some character => ([character], width + 1)
    | none => written
  else written

def octalMeaning (text : List Char) : List Char × Nat :=
  let digits := (text.take 3).takeWhile isOctalDigit
  (((Integer.readDigits? 8 0 digits).bind char?).toList, digits.length)

/-- The text that an escape stands for, and its length after the backslash. -/
def escapeMeaning : List Char → List Char × Nat
  | [] => (['\\'], 0)
  | letter :: rest =>
      if letter = '\n' then ([], 1)
      else if letter = '\\' || letter = '\'' || letter = '"' then ([letter], 1)
      else if letter = 'n' then (['\n'], 1)
      else if letter = 't' then (['\t'], 1)
      else if letter = 'r' then (['\r'], 1)
      else if letter = 'a' then (['\x07'], 1)
      else if letter = 'b' then (['\x08'], 1)
      else if letter = 'f' then (['\x0c'], 1)
      else if letter = 'v' then (['\x0b'], 1)
      else if isOctalDigit letter then octalMeaning (letter :: rest)
      else if letter = 'x' then hexMeaning letter 2 rest
      else if letter = 'u' then hexMeaning letter 4 rest
      else if letter = 'U' then hexMeaning letter 8 rest
      else (['\\', letter], 1)

def unescapeFrom : Nat → List Char → List Char
  | _, [] => []
  | skip + 1, _ :: rest => unescapeFrom skip rest
  | 0, character :: rest =>
      if character = '\\' then
        let (meaning, length) := escapeMeaning rest
        meaning ++ unescapeFrom length rest
      else character :: unescapeFrom 0 rest

def unescape (text : List Char) : List Char := unescapeFrom 0 text

def inside? (quote body : List Char) : Option (List Char) :=
  if 2 * quote.length ≤ body.length && quote.isSuffixOf body then
    some ((body.drop quote.length).take (body.length - 2 * quote.length))
  else none

/-- The text that a literal stands for. Literals of bytes and with replacement fields stand for none. -/
def text? (literal : List Char) : Option (List Char) := do
  let literal := trim literal
  let flags := literal.takeWhile fun c => c ≠ '\'' && c ≠ '"'
  let lowered := flags.map Char.toLower
  let body := literal.drop flags.length
  let mark ← body.head?
  let quote := if [mark, mark, mark].isPrefixOf body then [mark, mark, mark] else [mark]
  if lowered.all fun letter => letter = 'r' || letter = 'u' then
    let inner ← inside? quote body
    some (if lowered.contains 'r' then inner else unescape inner)
  else none

end TaskCab.Source.Quoted
