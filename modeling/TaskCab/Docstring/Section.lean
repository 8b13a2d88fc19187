import TaskCab.Entries
import TaskCab.Text.Blank
import TaskCab.Text.Lowercase
import TaskCab.Text.Search

/-!
# Docstrings and their parameter section

A docstring is freed of the indentation of its source. Its parameter section, opened by a heading phrase,
is a sequence of blocks: a line with a name at its start and at least two blanks after it opens the block
of that name, and every other line belongs to the block before it.
-/

namespace TaskCab.Docstring

open TaskCab.Text

def expandFrom : Nat → List Char → List Char
  | _, [] => []
  | column, character :: rest =>
      if character = '\t' then
        let width := 8 - column % 8
        List.replicate width ' ' ++ expandFrom (column + width) rest
      else character :: expandFrom (column + 1) rest

def expandTabs (line : List Char) : List Char := expandFrom 0 line

def indentation (line : List Char) : Nat := (line.takeWhile isBlank).length

def margin? (lines : List (List Char)) : Option Nat :=
  ((lines.filter fun line => !isBlankText line).map indentation).min?

/-- The lines of a docstring without the blanks before the first one and without the indentation that
the others have in common. -/
def dedent : List (List Char) → List (List Char)
  | [] => []
  | first :: rest => trimStart first :: rest.map fun line => line.drop ((margin? rest).getD 0)

def dropEmptyEnds (lines : List (List Char)) : List (List Char) :=
  let ended := (lines.reverse.dropWhile List.isEmpty).reverse
  ended.dropWhile List.isEmpty

def clean (raw : List Char) : List Char :=
  joinWith ['\n'] (dropEmptyEnds (dedent ((lines raw).map expandTabs)))

/-- The lines that belong to one parameter, each without blanks at its ends. -/
structure Block where
  name : String
  lines : List (List Char)
deriving DecidableEq, Repr

def sectionPhrase : List Char := "parameter descriptions".toList

def isSectionHeading (line : List Char) : Bool := occurs sectionPhrase (lower (trim line))

def isNameStart (character : Char) : Bool := character.isAlpha || character = '_'

def isNamePart (character : Char) : Bool := character.isAlphanum || character = '_'

/-- The name that a line opens the block of, and the rest of the line. -/
def header? (line : List Char) : Option (List Char × List Char) :=
  let name := line.takeWhile isNamePart
  let rest := line.drop name.length
  let blanks := rest.takeWhile isBlank
  if name.head?.any isNameStart && 2 ≤ blanks.length then
    some (name, trim (rest.drop blanks.length))
  else none

/-- The lines after the first heading, without further headings. -/
def sectionLines (lines : List (List Char)) : List (List Char) :=
  (lines.dropWhile fun line => !isSectionHeading line).filter fun line => !isSectionHeading line

def ownLines (lines : List (List Char)) : List (List Char) :=
  (lines.takeWhile fun line => (header? line).isNone).map trim

/-- The blocks that the headers of a section open, in order; a name may come again. -/
def openedBlocks : List (List Char) → List (String × List (List Char))
  | [] => []
  | line :: rest =>
      match header? line with
      | some (name, text) =>
          (String.ofList name, (if text.isEmpty then [] else [text]) ++ ownLines rest) ::
            openedBlocks rest
      | none => openedBlocks rest

/-- The blocks of a docstring. A name that comes again keeps its place and takes its last block. -/
def blocks (docstring : List Char) : List Block :=
  let opened := openedBlocks (sectionLines ((lines docstring).map expandTabs))
  (Entries.ofList opened).map fun (name, lines) => ⟨name, lines⟩

end TaskCab.Docstring
