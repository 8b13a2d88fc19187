import TaskCab.Text.LetterCase

/-!
# Lower-casing

Each letter is replaced by its lower-case form. Two letters need a rule of their own: a capital I with a
dot becomes two characters, and a capital sigma takes its final form at the end of a word.
-/

namespace TaskCab.Text

/-- The lower-case form of a character that does not depend on its neighbours. -/
def lowerChar (character : Char) : List Char :=
  if character.toNat < 0x80 then [character.toLower]
  else if character = 'İ' then ['i', '\u0307']
  else
    match lowercaseRuns.find? fun (first, last, step, _) =>
      decide (first ≤ character.toNat ∧ character.toNat ≤ last) &&
        (character.toNat - first) % step == 0 with
    | some (first, _, _, lower) => [Char.ofNat (lower + (character.toNat - first))]
    | none => [character]

/-- Whether a cased character comes next once those that are looked through are skipped. -/
def meetsCased (text : List Char) : Bool :=
  match text.dropWhile isCaseIgnorable with
  | character :: _ => isCased character
  | [] => false

/-- A sigma is final when a word comes before it and does not go on after it. -/
def sigma (before after : List Char) : Char :=
  if meetsCased before && !meetsCased after then 'ς' else 'σ'

/-- Lower-cases a text that follows `before`, which is given from its end. -/
def lowerAfter : List Char → List Char → List Char
  | _, [] => []
  | before, character :: rest =>
      (if character = 'Σ' then [sigma before rest] else lowerChar character) ++
        lowerAfter (character :: before) rest

def lower (text : List Char) : List Char := lowerAfter [] text

end TaskCab.Text
