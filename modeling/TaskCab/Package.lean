import TaskCab.Document
import TaskCab.Json.Reader

/-!
# Packages

A package holds cabs by their names, in the form in which documents are stored. Written as JSON, a cab
without outputs has no such member. Read back, members that are not known are passed over, a structure may
also be given as the array of its members, and a default that is `null` is none.
-/

namespace TaskCab

namespace Value

mutual

def toJson : Value → Json
  | null => .null
  | bool truth => .bool truth
  | int word => .int word.toInt
  | float number => .float number
  | str text => .str text
  | list items => .array (itemsToJson items)
  | map entries => .object (entriesToJson entries)

def itemsToJson : List Value → List Json
  | [] => []
  | item :: rest => toJson item :: itemsToJson rest

def entriesToJson : List (String × Value) → List (String × Json)
  | [] => []
  | (key, value) :: rest => (key, toJson value) :: entriesToJson rest

end

end Value

namespace SourceValue

def toJson : SourceValue → Json
  | decoded value => value.toJson
  | verbatim text => .str text

end SourceValue

structure CabDefinition where
  inputs : Records
  outputs : Option Records
deriving Repr

abbrev Package := List (String × CabDefinition)

namespace Package

def ofDocument (document : CabDocument) : Package :=
  [(document.name, ⟨document.inputs, document.outputs⟩)]

def document? (package : Package) (name : String) : Option CabDocument :=
  (Entries.get? name package).map fun cab => ⟨name, cab.inputs, cab.outputs⟩

def recordToJson (record : InputRecord) : Json :=
  .object [("dtype", .str record.dtype),
    ("default", (record.default.map SourceValue.toJson).getD .null),
    ("required", .bool record.required), ("info", .str record.info)]

def recordsToJson (records : Records) : Json :=
  .object (records.map fun (name, record) => (name, recordToJson record))

def cabToJson (cab : CabDefinition) : Json :=
  .object <| ("inputs", recordsToJson cab.inputs) ::
    match cab.outputs with
    | some outputs => [("outputs", recordsToJson outputs)]
    | none => []

def toJson (package : Package) : Json :=
  .object [("cabs", .object (package.map fun (name, cab) => (name, cabToJson cab)))]

open Json (Tree)

/-- The members of a structure by their names, or in order; other names are passed over and none of the
structure's own may come twice. -/
def members? (names : List String) : Tree → Option (List (String × Tree))
  | .array items => if items.length ≤ names.length then some (names.zip items) else none
  | .object members => do
      let named ← members.mapM fun (name, item) => name.map fun name => (name, item)
      let own := named.filter fun (name, _) => names.contains name
      if (own.map Prod.fst).Nodup then some own else none
  | _ => none

def text? : Tree → Option String
  | .str text => text
  | _ => none

def truth? : Tree → Option Bool
  | .bool truth => some truth
  | _ => none

def default? (depth : Nat) : Tree → Option (Option SourceValue)
  | .null => some none
  | item => (item.toValue? depth).map fun value => some (.decoded value)

def recordMembers : List String := ["dtype", "default", "required", "info"]

/-- A record; as an array it must have all members. -/
def record? (depth : Nat) (item : Tree) : Option InputRecord := do
  let members ← members? recordMembers item
  let dtype ← (Entries.get? "dtype" members).bind text?
  let default ←
    match Entries.get? "default" members with
    | some default => default? (depth + 1) default
    | none => some none
  let required ← (Entries.get? "required" members).bind truth?
  let info ← (Entries.get? "info" members).bind text?
  some ⟨dtype, default, required, info⟩

def table? {Item : Type} (depth : Nat) (item? : Nat → Tree → Option Item) :
    Tree → Option (List (String × Item))
  | .object members =>
      if depth < Json.depthLimit then do
        let items ← members.mapM fun (name, item) => do
          let name ← name
          let item ← item? (depth + 1) item
          some (name, item)
        some (Entries.ofList items)
      else none
  | _ => none

def optionalTable? (depth : Nat) : Option Tree → Option (Option Records)
  | none | some .null => some none
  | some item => (table? depth record? item).map some

def cab? (depth : Nat) (item : Tree) : Option CabDefinition := do
  let members ← members? ["inputs", "outputs"] item
  let inputs ← (Entries.get? "inputs" members).bind (table? (depth + 1) record?)
  let outputs ← optionalTable? (depth + 1) (Entries.get? "outputs" members)
  some ⟨inputs, outputs⟩

def ofTree? (item : Tree) : Option Package := do
  let members ← members? ["cabs"] item
  (Entries.get? "cabs" members).bind (table? 1 cab?)

def read? (text : String) : Option Package := (Tree.ofText? text.toList).bind ofTree?

end Package

namespace CabDocument

def toJson (document : CabDocument) : String :=
  (Package.toJson (Package.ofDocument document)).indented ++ "\n"

end CabDocument

end TaskCab
