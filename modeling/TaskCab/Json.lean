import TaskCab.Number.Shortest
import TaskCab.Text.Search

/-!
# JSON text

A value with its object members in order, and its text on one line or over several.
-/

namespace TaskCab

inductive Json where
  | null
  | bool (truth : Bool)
  | int (integer : Int)
  | float (number : Binary64)
  | str (text : String)
  | array (items : List Json)
  | object (members : List (String × Json))
deriving Repr

namespace Json

/-- Floats have a plain point from `1e-5` up to `1e16` and a signed exponent elsewhere. Whole numbers keep
`.0`, and a tie goes to the even digit. -/
def floatLayout : NumberLayout := ⟨.toEven, -5, 15, true, true, 1⟩

def floatText (number : Binary64) : List Char :=
  if number.isFinite then floatLayout.render number else "null".toList

def hexadecimal (code : Nat) : List Char :=
  let digits := Nat.toDigits 16 code
  List.replicate (4 - digits.length) '0' ++ digits

def escapeChar (character : Char) : List Char :=
  if character = '"' then ['\\', '"']
  else if character = '\\' then ['\\', '\\']
  else if character = '\x08' then ['\\', 'b']
  else if character = '\x0c' then ['\\', 'f']
  else if character = '\n' then ['\\', 'n']
  else if character = '\r' then ['\\', 'r']
  else if character = '\t' then ['\\', 't']
  else if character.toNat < 0x20 then '\\' :: 'u' :: hexadecimal character.toNat
  else [character]

def quoted (text : String) : List Char := '"' :: text.toList.flatMap escapeChar ++ ['"']

/-- How the parts of an array or an object are laid out: on one line, or each on a line of its own that
is indented by two spaces for every level. -/
inductive Layout where
  | compact
  | indented
deriving DecidableEq, Repr

def lineBreak (layout : Layout) (level : Nat) : List Char :=
  match layout with
  | .compact => []
  | .indented => '\n' :: List.replicate (2 * level) ' '

def colon : Layout → List Char
  | .compact => [':']
  | .indented => [':', ' ']

def enclose (layout : Layout) (level : Nat) (opening closing : Char) (parts : List (List Char)) :
    List Char :=
  if parts.isEmpty then [opening, closing]
  else
    opening :: Text.joinWith [','] (parts.map fun part => lineBreak layout (level + 1) ++ part) ++
      lineBreak layout level ++ [closing]

mutual

def render (layout : Layout) (level : Nat) : Json → List Char
  | null => "null".toList
  | bool truth => (if truth then "true" else "false").toList
  | int integer => Integer.render integer
  | float number => floatText number
  | str text => quoted text
  | array items => enclose layout level '[' ']' (renderItems layout (level + 1) items)
  | object members => enclose layout level '\x7b' '\x7d' (renderMembers layout (level + 1) members)

def renderItems (layout : Layout) (level : Nat) : List Json → List (List Char)
  | [] => []
  | item :: rest => render layout level item :: renderItems layout level rest

def renderMembers (layout : Layout) (level : Nat) : List (String × Json) → List (List Char)
  | [] => []
  | (name, value) :: rest =>
      (quoted name ++ colon layout ++ render layout level value) ::
        renderMembers layout level rest

end

def compact (json : Json) : String := String.ofList (render .compact 0 json)

def indented (json : Json) : String := String.ofList (render .indented 0 json)

end Json

end TaskCab
