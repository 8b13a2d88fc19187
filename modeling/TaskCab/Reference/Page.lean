import TaskCab.Reference.Table
import TaskCab.Text.WordChar
import TaskCab.Text.Search

/-!
# Reference pages

The published table of a task is the first table of its page. The first row is a header; each further row
with at least three cells has the name of an input, its default and its description. The text of a cell is
that of its pieces between tags, each without blanks at its ends.
-/

namespace TaskCab.Page

open TaskCab.Text

def afterWord? : List Char → List Char → Option (List Char)
  | [], text => some text
  | _ :: _, [] => none
  | letter :: word, character :: text =>
      if character.toLower = letter then afterWord? word text else none

def afterOpening? (name : List Char) (text : List Char) : Option (List Char) := do
  let rest ← afterWord? ('<' :: name) text
  if rest.head?.any isWordChar then none
  match rest.dropWhile (· ≠ '>') with
  | _ :: content => some content
  | [] => none

def afterClosing? (name : List Char) (text : List Char) : Option (List Char) := do
  let rest ← afterWord? ('<' :: '/' :: name) text
  afterStart? ['>'] (trimStart rest)

def content? (name : List Char) : List Char → Option (List Char × List Char)
  | [] => none
  | character :: rest =>
      match afterClosing? name (character :: rest) with
      | some after => some ([], after)
      | none => (content? name rest).map fun (content, after) => (character :: content, after)

def elementHere? (name : List Char) (text : List Char) : Option (List Char × List Char) :=
  (afterOpening? name text).bind (content? name)

/-- The contents of the elements of a text, from the left, after as many characters as are taken. -/
def elementsFrom (name : List Char) : Nat → List Char → List (List Char)
  | _, [] => []
  | skip + 1, _ :: rest => elementsFrom name skip rest
  | 0, character :: rest =>
      match elementHere? name (character :: rest) with
      | some (content, after) => content :: elementsFrom name (rest.length - after.length) rest
      | none => elementsFrom name 0 rest

def elements (name : String) (text : List Char) : List (List Char) :=
  elementsFrom name.toList 0 text

def tagLength? : List Char → Option Nat
  | '<' :: rest =>
      let inside := rest.takeWhile (· ≠ '>')
      if inside.length = rest.length then none else some (inside.length + 2)
  | _ => none

def piecesFrom : Nat → List Char → List (List Char)
  | _, [] => [[]]
  | skip + 1, _ :: rest => piecesFrom skip rest
  | 0, character :: rest =>
      match tagLength? (character :: rest) with
      | some length => [] :: piecesFrom (length - 1) rest
      | none =>
          match piecesFrom 0 rest with
          | [] => [[character]]
          | piece :: pieces => (character :: piece) :: pieces

def namedEntities : List (String × Char) :=
  [("amp", '&'), ("lt", '<'), ("gt", '>'), ("quot", '"'), ("apos", '\''), ("nbsp", '\u00a0')]

def charOf? (radix : Nat) (digits : List Char) : Option Char := do
  let code ← Integer.readNat? radix digits
  if code.isValidChar then some (Char.ofNat code) else none

def entity? : List Char → Option Char
  | '#' :: 'x' :: digits => charOf? 16 digits
  | '#' :: 'X' :: digits => charOf? 16 digits
  | '#' :: digits => charOf? 10 digits
  | name => namedEntities.lookup (String.ofList name)

/-- Replaces the entities of a text, once; those that are not known stay. -/
def decodeFrom : Nat → List Char → List Char
  | _, [] => []
  | skip + 1, _ :: rest => decodeFrom skip rest
  | 0, character :: rest =>
      if character = '&' then
        let name := rest.takeWhile fun c => c.isAlphanum || c = '#'
        match entity? name with
        | some decoded =>
            if (rest.drop name.length).head? = some ';' then
              decoded :: decodeFrom (name.length + 1) rest
            else character :: decodeFrom 0 rest
        | none => character :: decodeFrom 0 rest
      else character :: decodeFrom 0 rest

def decodeEntities (text : List Char) : List Char := decodeFrom 0 text

def cellText (cell : List Char) : List Char :=
  (piecesFrom 0 cell).flatMap fun piece => trim (decodeEntities piece)

def row? (row : List Char) : Option (String × Reference) :=
  match (elements "td" row).map fun cell => String.ofList (cellText cell) with
  | name :: default :: description :: _ => some (name, ⟨default, description⟩)
  | _ => none

def table? (page : List Char) : Option ReferenceTable :=
  (elements "table" page).head?.map fun table =>
    Entries.ofList (((elements "tr" table).drop 1).filterMap row?)

end TaskCab.Page
