import TaskCab.Yaml.Glyph

/-!
# YAML trees

The tree of a YAML text before anything is made of it. A scalar is its text; only an empty one tells
whether it was left out or written as an empty text.
-/

namespace TaskCab.Yaml

inductive Node where
  | missing
  | scalar (text : List Char)
  | sequence (items : List Node)
  | mapping (entries : List (Node × Node))
deriving Repr

namespace Node

/-- The text of a scalar; one that was left out is empty. -/
def text? : Node → Option String
  | missing => some ""
  | scalar text => some (String.ofList text)
  | sequence _ | mapping _ => none

/-- The entries of a mapping by the texts of their keys; one that was left out has none. -/
def members? : Node → Option (List (String × Node))
  | missing => some []
  | mapping entries => entries.mapM fun (key, value) => key.text?.map fun name => (name, value)
  | scalar _ | sequence _ => none

end Node

end TaskCab.Yaml
