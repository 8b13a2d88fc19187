import TaskCab.Text.Search

/-!
# Characters with their positions

The structure of a YAML text depends on where its tokens stand. A glyph is a character with its line and
column, and knows whether it is the first on its line after the indentation.
-/

namespace TaskCab.Yaml

structure Glyph where
  character : Char
  line : Nat
  column : Nat
  leads : Bool
deriving DecidableEq, Repr

def isBreak (character : Char) : Bool :=
  character = '\n' || character = '\u2028' || character = '\u2029'

def isGap (character : Char) : Bool := character = ' ' || character = '\t'

namespace Glyph

/-- Line feeds for the other ways to end a line: carriage returns, with or without a line feed, and the
next-line character. -/
def unifyBreaks : List Char → List Char
  | '\r' :: '\n' :: rest => '\n' :: unifyBreaks rest
  | '\r' :: rest => '\n' :: unifyBreaks rest
  | '\u0085' :: rest => '\n' :: unifyBreaks rest
  | character :: rest => character :: unifyBreaks rest
  | [] => []

def place (line column : Nat) (leads : Bool) : List Char → List Glyph
  | [] => []
  | character :: rest =>
      ⟨character, line, column, leads⟩ ::
        if isBreak character then place (line + 1) 0 true rest
        else place line (column + 1) (leads && character = ' ') rest

def isAllowed (character : Char) : Bool :=
  let code := character.toNat
  code = 0x09 || code = 0x0A || code = 0x0D || decide (0x20 ≤ code ∧ code ≤ 0x7E) || code = 0x85 ||
    decide (0xA0 ≤ code ∧ code ≤ 0xFFFD) || decide (0x10000 ≤ code)

/-- The glyphs of a text without the mark of its byte order; none if a character is not allowed. -/
def ofText? (text : List Char) : Option (List Glyph) :=
  let text := (Text.afterStart? ['\ufeff'] text).getD text
  if text.all isAllowed then some (place 0 0 true (unifyBreaks text)) else none

def startsWith (character : Char) (glyphs : List Glyph) : Bool :=
  glyphs.head?.any fun glyph => glyph.character = character

def endsWord : List Glyph → Bool
  | [] => true
  | glyph :: _ => isGap glyph.character || isBreak glyph.character

/-- What gaps, comments and line breaks are followed by. Tabs count as gaps only behind a token, and
everywhere inside brackets. -/
def skip (bracketed comment tabs : Bool) : List Glyph → List Glyph
  | [] => []
  | glyph :: rest =>
      if isBreak glyph.character then skip bracketed false bracketed rest
      else if comment || glyph.character = '#' then skip bracketed true tabs rest
      else if glyph.character = ' ' || (tabs && glyph.character = '\t') then
        skip bracketed false tabs rest
      else glyph :: rest

def isMark (mark : Char) : List Glyph → Bool
  | first :: second :: third :: rest =>
      first.column = 0 && first.character = mark && second.character = mark &&
        third.character = mark && endsWord rest
  | _ => false

def isDocumentMark (glyphs : List Glyph) : Bool := isMark '-' glyphs || isMark '.' glyphs

def isItemMark : List Glyph → Bool
  | glyph :: rest => glyph.character = '-' && endsWord rest
  | [] => false

end Glyph

end TaskCab.Yaml
