/-!
# Ordered entries

A table from names to values keeps the order in which names first came. Writing a name again replaces
its value in place.
-/

namespace TaskCab.Entries

variable {Item : Type}

def keys (entries : List (String × Item)) : List String := entries.map Prod.fst

def get? (key : String) : List (String × Item) → Option Item
  | [] => none
  | (name, item) :: rest => if name = key then some item else get? key rest

def put (key : String) (item : Item) : List (String × Item) → List (String × Item)
  | [] => [(key, item)]
  | (name, old) :: rest =>
      if name = key then (name, item) :: rest else (name, old) :: put key item rest

def putAll (pairs : List (String × Item)) (entries : List (String × Item)) : List (String × Item) :=
  pairs.foldl (fun table (key, item) => put key item table) entries

def ofList (pairs : List (String × Item)) : List (String × Item) := putAll pairs []

end TaskCab.Entries
