import TaskCab.Number.Integer
import TaskCab.Yaml.Node

/-!
# Scalars and brackets

Plain and quoted scalars may go over several lines: the blanks around a line break fold to one space, and
further line breaks are kept. Sequences and mappings in brackets hold such scalars and each other.
-/

namespace TaskCab.Yaml

namespace Glyph

/-- The blanks read since the last character of a scalar. Once there is a line break, gaps no longer
count; `first` is that break and `more` are those after it. -/
inductive Blanks where
  | gaps (gaps : List Char)
  | folded (first more : List Char)
deriving DecidableEq, Repr

namespace Blanks

def none : Blanks := gaps []

def addGap (character : Char) : Blanks → Blanks
  | gaps before => gaps (before ++ [character])
  | folded first more => folded first more

def addBreak (character : Char) : Blanks → Blanks
  | gaps _ => folded [character] []
  | folded first more => folded first (more ++ [character])

def isFolded : Blanks → Bool
  | gaps _ => false
  | folded .. => true

def text : Blanks → List Char
  | gaps before => before
  | folded first more =>
      if first = ['\n'] then (if more.isEmpty then [' '] else more) else first ++ more

end Blanks

def isBracket (character : Char) : Bool :=
  character = ',' || character = '[' || character = ']' || character = '\x7b' || character = '\x7d'

/-- Whether a plain scalar ends before a character, given what follows that. -/
def endsPlain (bracketed : Bool) (character : Char) (rest : List Glyph) : Bool :=
  (character = ':' && endsWord rest) || (bracketed && isBracket character)

/-- Whether a colon inside brackets stands where neither a key nor a text may end. -/
def isStrayColon (bracketed : Bool) (character : Char) (rest : List Glyph) : Bool :=
  bracketed && character = ':' &&
    rest.head?.any fun next => isBracket next.character || next.character = '?'

/-- Whether a plain scalar ends where a word begins after blanks: at a comment, at the mark of a document,
or on a line that is not indented enough. -/
def endsBeforeWord (bracketed : Bool) (indent : Nat) (blanks : Blanks) (glyph : Glyph)
    (rest : List Glyph) : Bool :=
  blanks ≠ .none &&
    (glyph.character = '#' || isDocumentMark (glyph :: rest) ||
      (blanks.isFolded && !bracketed && glyph.column < indent))

def plain? (bracketed : Bool) (indent : Nat) : Blanks → List Glyph → Option (List Char × List Glyph)
  | _, [] => some ([], [])
  | blanks, glyph :: rest =>
      if isGap glyph.character then
        if blanks.isFolded && glyph.character = '\t' && glyph.column < indent then none
        else plain? bracketed indent (blanks.addGap glyph.character) rest
      else if isBreak glyph.character then
        plain? bracketed indent (blanks.addBreak glyph.character) rest
      else if endsBeforeWord bracketed indent blanks glyph rest then some ([], glyph :: rest)
      else if isStrayColon bracketed glyph.character rest then none
      else if endsPlain bracketed glyph.character rest then some ([], glyph :: rest)
      else
        (plain? bracketed indent .none rest).map fun (text, after) =>
          (blanks.text ++ glyph.character :: text, after)

def startsPlain (bracketed : Bool) (character : Char) (rest : List Glyph) : Bool :=
  if character = '-' then !endsWord rest
  else if character = '?' || character = ':' then !bracketed && !endsWord rest
  else !isGap character && !isBracket character && !"#&*!|>'\"%@\x60".toList.contains character

/-- The text after an opening single quote, up to the closing one. A quote inside is written twice. -/
def single? : Blanks → List Glyph → Option (List Char × List Glyph)
  | _, [] => none
  | blanks, glyph :: rest =>
      if isDocumentMark (glyph :: rest) then none
      else if isGap glyph.character then single? (blanks.addGap glyph.character) rest
      else if isBreak glyph.character then single? (blanks.addBreak glyph.character) rest
      else if glyph.character = '\'' then
        match rest with
        | next :: rest =>
            if next.character = '\'' then
              (single? .none rest).map fun (text, after) => (blanks.text ++ '\'' :: text, after)
            else some (blanks.text, next :: rest)
        | [] => some (blanks.text, [])
      else
        (single? .none rest).map fun (text, after) =>
          (blanks.text ++ glyph.character :: text, after)

def namedEscapes : List (Char × Char) :=
  [('0', '\x00'), ('a', '\x07'), ('b', '\x08'), ('t', '\t'), ('\t', '\t'), ('n', '\n'), ('v', '\x0b'),
    ('f', '\x0c'), ('r', '\r'), ('e', '\x1b'), (' ', ' '), ('"', '"'), ('/', '/'), ('\\', '\\'),
    ('\'', '\''), ('N', '\u0085'), ('_', '\u00a0'), ('L', '\u2028'), ('P', '\u2029')]

def escapeWidths : List (Char × Nat) := [('x', 2), ('u', 4), ('U', 8)]

/-- The character of an escape, given what follows the backslash, and the length of the escape after it. -/
def escape? : List Glyph → Option (Char × Nat)
  | [] => none
  | letter :: rest =>
      match escapeWidths.lookup letter.character with
      | some width => do
          let digits := (rest.take width).map Glyph.character
          let code ← Integer.readDigits? 16 0 digits
          if digits.length = width && code.isValidChar then some (Char.ofNat code, width + 1) else none
      | none => (namedEscapes.lookup letter.character).map fun character => (character, 1)

/-- The text after an opening double quote, up to the closing one, after as many glyphs as belong to the
escape before. A backslash at the end of a line takes the line break away. -/
def double? : Nat → Blanks → List Glyph → Option (List Char × List Glyph)
  | _, _, [] => none
  | skip + 1, blanks, _ :: rest => double? skip blanks rest
  | 0, blanks, glyph :: rest =>
      if isDocumentMark (glyph :: rest) then none
      else if isGap glyph.character then double? 0 (blanks.addGap glyph.character) rest
      else if isBreak glyph.character then double? 0 (blanks.addBreak glyph.character) rest
      else if glyph.character = '"' then some (blanks.text, rest)
      else if glyph.character = '\\' then
        if rest.head?.any (isBreak ·.character) then
          (double? 1 (.folded [] []) rest).map fun (text, after) => (blanks.text ++ text, after)
        else do
          let (character, length) ← escape? rest
          let (text, after) ← double? length .none rest
          some (blanks.text ++ character :: text, after)
      else
        (double? 0 .none rest).map fun (text, after) =>
          (blanks.text ++ glyph.character :: text, after)

def scalar? (bracketed : Bool) (indent : Nat) : List Glyph → Option (Node × List Glyph)
  | [] => none
  | glyph :: rest =>
      if glyph.character = '\'' then
        (single? .none rest).map fun (text, after) => (.scalar text, after)
      else if glyph.character = '"' then
        (double? 0 .none rest).map fun (text, after) => (.scalar text, after)
      else if startsPlain bracketed glyph.character rest then
        (plain? bracketed indent .none (glyph :: rest)).map fun (text, after) => (.scalar text, after)
      else none

def skipBracketed (glyphs : List Glyph) : List Glyph := skip true false true glyphs

/-- What follows a colon that makes a key of the node before it, which began on the same line. -/
def afterColon? (line : Nat) : List Glyph → Option (List Glyph)
  | glyph :: rest =>
      if glyph.character = ':' && glyph.line = line then some (skipBracketed rest) else none
  | [] => none

mutual

/-- A node inside brackets, at the next glyph, and what follows it. Each nested node costs one unit of
fuel. -/
def node? : Nat → List Glyph → Option (Node × List Glyph)
  | 0, _ => none
  | fuel + 1, glyphs =>
      match glyphs with
      | [] => none
      | glyph :: rest =>
          if glyph.character = '[' then
            (items? fuel (skipBracketed rest)).map fun (items, after) => (.sequence items, after)
          else if glyph.character = '\x7b' then
            (entries? fuel (skipBracketed rest)).map fun (entries, after) => (.mapping entries, after)
          else scalar? true 0 (glyph :: rest)

/-- A key, which may be missing, and its value, if there is a colon. -/
def pair? : Nat → List Glyph → Option (Node × Option Node × List Glyph)
  | 0, _ => none
  | fuel + 1, glyphs => do
      let line := (glyphs.head?.map Glyph.line).getD 0
      let (key, after) ←
        if startsWith ':' glyphs then some (.missing, glyphs) else node? fuel glyphs
      match afterColon? line (skipBracketed after) with
      | none => some (key, none, skipBracketed after)
      | some rest =>
          if [',', ']', '\x7d'].any fun mark => startsWith mark rest then
            some (key, some .missing, rest)
          else do
            let (value, after) ← node? fuel rest
            some (key, some value, skipBracketed after)

/-- The items of a sequence up to its closing bracket. A pair is a mapping of its own. -/
def items? : Nat → List Glyph → Option (List Node × List Glyph)
  | 0, _ => none
  | fuel + 1, glyphs =>
      if startsWith ']' glyphs then some ([], glyphs.drop 1)
      else do
        let (key, value, rest) ← pair? fuel glyphs
        let item :=
          match value with
          | some value => .mapping [(key, value)]
          | none => key
        if startsWith ',' rest then do
          let (items, after) ← items? fuel (skipBracketed (rest.drop 1))
          some (item :: items, after)
        else if startsWith ']' rest then some ([item], rest.drop 1)
        else none

def entries? : Nat → List Glyph → Option (List (Node × Node) × List Glyph)
  | 0, _ => none
  | fuel + 1, glyphs =>
      if startsWith '\x7d' glyphs then some ([], glyphs.drop 1)
      else do
        let (key, value, rest) ← pair? fuel glyphs
        let entry := (key, value.getD .missing)
        if startsWith ',' rest then do
          let (entries, after) ← entries? fuel (skipBracketed (rest.drop 1))
          some (entry :: entries, after)
        else if startsWith '\x7d' rest then some ([entry], rest.drop 1)
        else none

end

end Glyph

end TaskCab.Yaml
