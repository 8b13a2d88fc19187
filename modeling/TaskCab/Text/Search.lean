/-!
# Finding and cutting text

Occurrences are looked for from the left and do not overlap.
-/

namespace TaskCab.Text

/-- What is asked of each character of a text is decided along the text, not over all characters. -/
instance (priority := 2000) decidableForallMem {holds : Char → Prop} [DecidablePred holds] (text : List Char) :
    Decidable (∀ character ∈ text, holds character) := List.decidableBAll holds text

def afterStart? : List Char → List Char → Option (List Char)
  | [], text => some text
  | _ :: _, [] => none
  | character :: start, found :: text =>
      if character = found then afterStart? start text else none

def occurs (part : List Char) : List Char → Bool
  | [] => part.isEmpty
  | character :: rest => part.isPrefixOf (character :: rest) || occurs part rest

/-- The pieces between the characters that `separates` holds of; never empty. -/
def splitWhere (separates : Char → Bool) : List Char → List (List Char)
  | [] => [[]]
  | character :: rest =>
      if separates character then [] :: splitWhere separates rest
      else
        match splitWhere separates rest with
        | [] => [[character]]
        | piece :: pieces => (character :: piece) :: pieces

def dropReturn (line : List Char) : List Char :=
  match line.getLast? with
  | some '\r' => line.dropLast
  | _ => line

/-- The lines of a text, each without the line feed, or carriage return and line feed, that ends it. A
text that ends in a line feed has no empty line after it. -/
def lines (text : List Char) : List (List Char) :=
  let pieces := splitWhere (· == '\n') text
  let closed := pieces.dropLast.map dropReturn
  match pieces.getLast? with
  | some (character :: rest) => closed ++ [character :: rest]
  | _ => closed

def joinWith (separator : List Char) (pieces : List (List Char)) : List Char :=
  List.intercalate separator pieces

/-- ASCII letters compare without regard to case, all else exactly. -/
def sameIgnoringCase (left right : List Char) : Bool :=
  left.map Char.toLower == right.map Char.toLower

end TaskCab.Text
