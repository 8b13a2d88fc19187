import TaskCab.Json

/-!
# JSON trees

The tree of a JSON text before anything is made of it: numerals are still digits, a string may hold
escapes that denote no text, and an object may repeat a name. A reader can therefore pass over what it has
no use for without judging it.
-/

namespace TaskCab.Json

/-- A numeral by its digits. An exponent has a sign and digits. -/
structure Numeral where
  negative : Bool
  whole : List Char
  fraction : Option (List Char)
  exponent : Option (Bool × List Char)
deriving DecidableEq, Repr

/-- A text is missing where the escapes of a string denote none. -/
inductive Tree where
  | null
  | bool (truth : Bool)
  | number (numeral : Numeral)
  | str (text : Option String)
  | array (items : List Tree)
  | object (members : List (Option String × Tree))
deriving Repr

namespace Tree

def isSpace (character : Char) : Bool :=
  character = ' ' || character = '\n' || character = '\t' || character = '\r'

def skipSpace (text : List Char) : List Char := text.dropWhile isSpace

/-- The code units that a string denotes: characters, or units given by a hexadecimal escape. -/
inductive CodeUnit where
  | character (character : Char)
  | escaped (code : Nat)
deriving DecidableEq, Repr

def simpleEscapes : List (Char × Char) :=
  [('"', '"'), ('\\', '\\'), ('/', '/'), ('b', '\x08'), ('f', '\x0c'), ('n', '\n'), ('r', '\r'),
    ('t', '\t')]

def escape? : List Char → Option (CodeUnit × Nat)
  | [] => none
  | letter :: rest =>
      if letter = 'u' then
        let digits := rest.take 4
        if digits.length = 4 then
          (Integer.readDigits? 16 0 digits).map fun code => (.escaped code, 5)
        else none
      else (simpleEscapes.lookup letter).map fun character => (.character character, 1)

/-- The units of a string up to its closing quote, and the text after that. The count is that of the
characters that belong to the escape before. -/
def units? : Nat → List Char → Option (List CodeUnit × List Char)
  | _, [] => none
  | skip + 1, _ :: rest => units? skip rest
  | 0, character :: rest =>
      if character = '"' then some ([], rest)
      else if character = '\\' then do
        let (unit, length) ← escape? rest
        let (units, after) ← units? length rest
        some (unit :: units, after)
      else if character.toNat < 0x20 then none
      else do
        let (units, after) ← units? 0 rest
        some (.character character :: units, after)

def isHighSurrogate (code : Nat) : Bool := decide (0xD800 ≤ code ∧ code ≤ 0xDBFF)

def isLowSurrogate (code : Nat) : Bool := decide (0xDC00 ≤ code ∧ code ≤ 0xDFFF)

/-- The text of units. Two surrogates in a row make one character; a single one makes none. -/
def textOf? : List CodeUnit → Option (List Char)
  | [] => some []
  | .character character :: rest => (textOf? rest).map (character :: ·)
  | .escaped high :: .escaped low :: rest =>
      if isHighSurrogate high then
        if isLowSurrogate low then
          (textOf? rest).map
            (Char.ofNat (0x10000 + (high - 0xD800) * 0x400 + (low - 0xDC00)) :: ·)
        else none
      else if isLowSurrogate high then none
      else (textOf? (.escaped low :: rest)).map (Char.ofNat high :: ·)
  | .escaped code :: rest =>
      if isHighSurrogate code || isLowSurrogate code then none
      else (textOf? rest).map (Char.ofNat code :: ·)

def string? (text : List Char) : Option (Option String × List Char) :=
  (units? 0 text).map fun (units, rest) => ((textOf? units).map String.ofList, rest)

def digits? (text : List Char) : Option (List Char × List Char) :=
  let digits := text.takeWhile Char.isDigit
  if digits.isEmpty then none else some (digits, text.drop digits.length)

def whole? (text : List Char) : Option (List Char × List Char) := do
  let (digits, rest) ← digits? text
  if digits.head? = some '0' && 1 < digits.length then none else some (digits, rest)

def exponent? (text : List Char) : Option (Option (Bool × List Char) × List Char) :=
  match text with
  | letter :: rest =>
      if letter = 'e' || letter = 'E' then
        let negative := rest.head? = some '-'
        let unsigned := if negative || rest.head? = some '+' then rest.drop 1 else rest
        (digits? unsigned).map fun (digits, rest) => (some (negative, digits), rest)
      else some (none, text)
  | [] => some (none, [])

def fraction? (text : List Char) : Option (Option (List Char) × List Char) :=
  match text with
  | '.' :: rest => (digits? rest).map fun (digits, rest) => (some digits, rest)
  | text => some (none, text)

def numeral? (text : List Char) : Option (Numeral × List Char) := do
  let negative := text.head? = some '-'
  let (whole, rest) ← whole? (if negative then text.drop 1 else text)
  let (fraction, rest) ← fraction? rest
  let (exponent, rest) ← exponent? rest
  some (⟨negative, whole, fraction, exponent⟩, rest)

def word? (word : String) (value : Tree) (text : List Char) : Option (Tree × List Char) :=
  (Text.afterStart? word.toList text).map fun rest => (value, rest)

mutual

/-- A value at the start of a text, and the text after it. Each nested value costs one unit of fuel. -/
def value? : Nat → List Char → Option (Tree × List Char)
  | 0, _ => none
  | fuel + 1, text =>
      match skipSpace text with
      | [] => none
      | character :: rest =>
          if character = '"' then (string? rest).map fun (text, rest) => (.str text, rest)
          else if character = '[' then
            match skipSpace rest with
            | ']' :: after => some (.array [], after)
            | _ => (items? fuel rest).map fun (items, after) => (.array items, after)
          else if character = '\x7b' then
            match skipSpace rest with
            | '\x7d' :: after => some (.object [], after)
            | _ => (members? fuel rest).map fun (members, after) => (.object members, after)
          else if character = 'n' then word? "ull" .null rest
          else if character = 't' then word? "rue" (.bool true) rest
          else if character = 'f' then word? "alse" (.bool false) rest
          else (numeral? (character :: rest)).map fun (numeral, rest) => (.number numeral, rest)

def items? : Nat → List Char → Option (List Tree × List Char)
  | 0, _ => none
  | fuel + 1, text => do
      let (item, rest) ← value? fuel text
      match skipSpace rest with
      | ']' :: after => some ([item], after)
      | ',' :: rest =>
          let (items, after) ← items? fuel rest
          some (item :: items, after)
      | _ => none

def members? : Nat → List Char → Option (List (Option String × Tree) × List Char)
  | 0, _ => none
  | fuel + 1, text =>
      match skipSpace text with
      | '"' :: rest => do
          let (name, rest) ← string? rest
          match skipSpace rest with
          | ':' :: rest =>
              let (value, rest) ← value? fuel rest
              match skipSpace rest with
              | '\x7d' :: after => some ([(name, value)], after)
              | ',' :: rest =>
                  let (members, after) ← members? fuel rest
                  some ((name, value) :: members, after)
              | _ => none
          | _ => none
      | _ => none

end

def ofText? (text : List Char) : Option Tree := do
  let (tree, rest) ← value? (text.length + 1) text
  if (skipSpace rest).isEmpty then some tree else none

end Tree

end TaskCab.Json
