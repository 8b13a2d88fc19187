import TaskCab.Proofs.Entries
import TaskCab.Value

/-!
# What a value holds

The scalars and the texts of a value, and the form that values have: no map has a key twice.
-/

namespace TaskCab.Value

mutual

/-- The parts of a value that are no list and no map. -/
def scalars : Value → List Value
  | list items => itemScalars items
  | map entries => entryScalars entries
  | scalar => [scalar]

def itemScalars : List Value → List Value
  | [] => []
  | item :: rest => scalars item ++ itemScalars rest

def entryScalars : List (String × Value) → List Value
  | [] => []
  | (_, value) :: rest => scalars value ++ entryScalars rest

end

mutual

def texts : Value → List String
  | str text => [text]
  | list items => itemTexts items
  | map entries => entryTexts entries
  | _ => []

def itemTexts : List Value → List String
  | [] => []
  | item :: rest => texts item ++ itemTexts rest

def entryTexts : List (String × Value) → List String
  | [] => []
  | (key, value) :: rest => key :: (texts value ++ entryTexts rest)

end

mutual

/-- Whether every map in a value has distinct keys, as every table has. -/
def Distinct : Value → Prop
  | list items => AllDistinct items
  | map entries => Entries.Distinct entries ∧ EntriesDistinct entries
  | _ => True

def AllDistinct : List Value → Prop
  | [] => True
  | item :: rest => Distinct item ∧ AllDistinct rest

def EntriesDistinct : List (String × Value) → Prop
  | [] => True
  | (_, value) :: rest => Distinct value ∧ EntriesDistinct rest

end

end TaskCab.Value
