import TaskCab.Yaml.Glyph

/-!
# Texts in blocks

A text below a bar keeps its lines as they stand; below a greater-than sign, single line breaks between
lines that are not indented further fold to spaces. The head tells what becomes of the line breaks at the
end, and may give the indentation, which otherwise is that of the first line.
-/

namespace TaskCab.Yaml

namespace Glyph

inductive Chomping where
  | strip
  | clip
  | keep
deriving DecidableEq, Repr

def chomping? (character : Char) : Option Chomping :=
  if character = '-' then some .strip else if character = '+' then some .keep else none

def increment? (character : Char) : Option Nat :=
  if '1' ≤ character ∧ character ≤ '9' then some (character.toNat - '0'.toNat) else none

/-- The head of a block text: chomping and indentation in any order, each at most once. -/
def head : List Glyph → Chomping × Option Nat × List Glyph
  | [] => (.clip, none, [])
  | first :: rest =>
      match chomping? first.character, increment? first.character with
      | some chomping, _ =>
          match rest with
          | second :: after =>
              match increment? second.character with
              | some increment => (chomping, some increment, after)
              | none => (chomping, none, rest)
          | [] => (chomping, none, [])
      | none, some increment =>
          match rest with
          | second :: after =>
              match chomping? second.character with
              | some chomping => (chomping, some increment, after)
              | none => (.clip, some increment, rest)
          | [] => (.clip, some increment, [])
      | none, none => (.clip, none, first :: rest)

/-- The line after the head; nothing but a comment may stand between. -/
def afterHead? : Bool → List Glyph → Option (List Glyph)
  | _, [] => some []
  | comment, glyph :: rest =>
      if isBreak glyph.character then some rest
      else if comment || glyph.character = '#' then afterHead? true rest
      else if isGap glyph.character then afterHead? false rest
      else none

/-- Takes line breaks and the indentation of lines away, up to a given column if there is one. Returns
the line breaks, the furthest column, and the rest. -/
def emptyLines? (limit : Option Nat) (furthest : Nat) :
    List Glyph → Option (List Char × Nat × List Glyph)
  | [] => some ([], furthest, [])
  | glyph :: rest =>
      let furthest := max furthest glyph.column
      let indents := limit.all fun limit => glyph.column < limit
      if glyph.character = ' ' && indents then emptyLines? limit furthest rest
      else if glyph.character = '\t' && indents then none
      else if isBreak glyph.character then
        (emptyLines? limit furthest rest).map fun (breaks, furthest, after) =>
          (glyph.character :: breaks, furthest, after)
      else some ([], furthest, glyph :: rest)

def takeLine : List Glyph → List Char × List Char × List Glyph
  | [] => ([], [], [])
  | glyph :: rest =>
      if isBreak glyph.character then ([], [glyph.character], rest)
      else
        let (text, ending, after) := takeLine rest
        (glyph.character :: text, ending, after)

/-- The line breaks between two lines: `ending` is that of the first line, and `empty` are those of the
empty lines after it. A single one folds between two lines that do not start with a gap. -/
def between (folds : Bool) (ending empty : List Char) : List Char :=
  if folds && ending = ['\n'] then (if empty.isEmpty then [' '] else empty) else ending ++ empty

/-- The lines of a text that stand at an indentation, from the line ending before them on. Each line costs
one unit of fuel. -/
def textLines? (folded : Bool) (indent : Nat) (chomping : Chomping) :
    Nat → Bool → List Char → List Char → List Glyph → Option (List Char × List Glyph)
  | 0, _, _, _, _ => none
  | fuel + 1, afterGap, ending, empty, glyphs =>
      match glyphs with
      | first :: _ =>
          if first.column = indent then do
            let startsGap := isGap first.character
            let (text, newEnding, rest) := takeLine glyphs
            let (newEmpty, _, rest) ← emptyLines? (some indent) 0 rest
            let (more, after) ← textLines? folded indent chomping fuel startsGap newEnding newEmpty rest
            some (between (folded && !afterGap && !startsGap) ending empty ++ text ++ more, after)
          else some (chomped ending empty, glyphs)
      | [] => some (chomped ending empty, [])
where
  chomped (ending empty : List Char) : List Char :=
    match chomping with
    | .strip => []
    | .clip => ending
    | .keep => ending ++ empty

/-- The text below a head, which is given from the character after the bar or greater-than sign on, in a
node whose content is indented by at least `indent`. -/
def blockText? (folded : Bool) (indent : Nat) (glyphs : List Glyph) : Option (List Char × List Glyph) := do
  let (chomping, increment, rest) := head glyphs
  let body ← afterHead? false rest
  let given := increment.map fun columns => indent - 1 + columns
  let (empty, furthest, rest) ← emptyLines? given 0 body
  textLines? folded (given.getD (max (max furthest indent) 1)) chomping (glyphs.length + 1) false [] empty
    rest

end Glyph

end TaskCab.Yaml
