import TaskCab.Config
import TaskCab.Reference.Page
import TaskCab.Reference.Table

/-!
# Reference tables from their pages

The table of a task is that of its page. A page that cannot be reached, or has no table, gives the empty
table, so that nothing is filled in and every input counts as not found.
-/

namespace TaskCab

inductive FetchError where
  | unreachable (address : String)
  | noTable (address : String)
deriving DecidableEq, Repr

namespace ReferenceTable

def ofPage (config : DocsConfig) (task : String) (page : Option String) :
    Except FetchError ReferenceTable :=
  match page with
  | none => .error (.unreachable (config.pageUrl task))
  | some text =>
      match Page.table? text.toList with
      | some table => .ok table
      | none => .error (.noTable (config.pageUrl task))

def orEmpty : Except FetchError ReferenceTable → ReferenceTable
  | .ok table => table
  | .error _ => []

end ReferenceTable

end TaskCab
