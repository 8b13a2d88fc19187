import TaskCab.Text.Search

/-!
# Paths

A path is a text of parts between slashes. Nothing is looked up: a part that leads to a parent stays as it
is written.
-/

namespace TaskCab.Path

open TaskCab.Text

/-- The parts of a path; empty ones do not count. -/
def parts (path : String) : List String :=
  ((splitWhere (· == '/') path.toList).filter fun part => !part.isEmpty).map String.ofList

def isAbsolute (path : String) : Bool := path.toList.head? = some '/'

def endsInSlash (path : String) : Bool := path.toList.getLast? = some '/'

/-- The path of a name in a directory. An absolute name stands for itself. -/
def join (directory name : String) : String :=
  if isAbsolute name || directory.isEmpty then name
  else if endsInSlash directory then directory ++ name
  else directory ++ "/" ++ name

/-- The last part of a path that moves anywhere, if it does not lead to a parent. -/
def fileName? (path : String) : Option String :=
  match ((parts path).filter (· ≠ ".")).getLast? with
  | some name => if name = ".." then none else some name
  | none => none

/-- A name up to its last point; one with nothing before that point stays whole. -/
def stem (name : String) : String :=
  match name.toList.reverse.dropWhile (· ≠ '.') with
  | _ :: character :: rest => String.ofList (character :: rest).reverse
  | _ => name

def cabName (path : String) : String := ((fileName? path).map stem).getD ""

def steps (path : String) : List String :=
  match parts path with
  | [] => []
  | first :: rest =>
      let rest := rest.filter (· ≠ ".")
      if first = "." && isAbsolute path then rest else first :: rest

def ancestors (path : String) : List (List String) :=
  let steps := steps path
  (List.range (steps.length - 1)).map fun count => steps.take (count + 1)

end TaskCab.Path
