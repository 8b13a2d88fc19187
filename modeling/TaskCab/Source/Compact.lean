import TaskCab.Text.Blank

/-!
# Compact text

An expression on one line, with uniform spacing. Runs of blanks and comments become one space, which is
dropped beside brackets and before commas and colons; a comma is followed by one space, and one in front
of a closing square or curly bracket is dropped. String literals stay as they are.
-/

namespace TaskCab.Source.Compact

open TaskCab.Text

/-- Where the copying of an expression stands. In a literal, `run` counts the closing marks read last. -/
inductive Place where
  | code
  | comment
  | opened (mark : Char)
  | openedTwice (mark : Char)
  | literal (mark : Char) (triple : Bool) (run : Nat)
  | escape (mark : Char) (triple : Bool)
deriving DecidableEq, Repr

structure Progress where
  place : Place
  spaced : Bool
  afterComma : Bool
  /-- The text so far, from its end. -/
  written : List Char
deriving DecidableEq, Repr

def start : Progress := ⟨.code, false, false, []⟩

def isOpening (character : Char) : Bool := "([\x7b".toList.contains character

def isMark (character : Char) : Bool := character = '\'' || character = '"'

def separator (progress : Progress) : List Char :=
  if progress.afterComma then [' ']
  else if progress.spaced then
    match progress.written with
    | [] => []
    | last :: _ => if isOpening last then [] else [' ']
  else []

def codeStep (progress : Progress) (character : Char) : Progress :=
  if isBlank character then { progress with place := .code, spaced := true }
  else if character = '#' then { progress with place := .comment }
  else if character = ')' then ⟨.code, false, false, character :: progress.written⟩
  else if character = ']' || character = '\x7d' then
    let written := if progress.afterComma then progress.written.drop 1 else progress.written
    ⟨.code, false, false, character :: written⟩
  else if character = ',' || character = ':' then
    ⟨.code, false, character = ',', character :: progress.written⟩
  else
    ⟨if isMark character then .opened character else .code, false, false,
      character :: (separator progress ++ progress.written)⟩

/-- A character of a literal is copied; three marks in a row end one that three marks opened. -/
def literalPlace (mark : Char) (triple : Bool) (run : Nat) (character : Char) : Place :=
  if character = '\\' then .escape mark triple
  else if character = mark then
    if !triple || run = 2 then .code else .literal mark triple (run + 1)
  else .literal mark triple 0

def step (progress : Progress) (character : Char) : Progress :=
  let copy (place : Place) : Progress := ⟨place, false, false, character :: progress.written⟩
  match progress.place with
  | .code => codeStep progress character
  | .comment =>
      if character = '\n' then { progress with place := .code, spaced := true } else progress
  | .opened mark =>
      if character = mark then copy (.openedTwice mark) else copy (literalPlace mark false 0 character)
  | .openedTwice mark =>
      if character = mark then copy (.literal mark true 0) else codeStep progress character
  | .literal mark triple run => copy (literalPlace mark triple run character)
  | .escape mark triple => copy (.literal mark triple 0)

def text (expression : List Char) : List Char :=
  ((trim expression).foldl step start).written.reverse

end TaskCab.Source.Compact
