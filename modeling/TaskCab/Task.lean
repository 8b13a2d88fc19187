import TaskCab.Docstring.Default
import TaskCab.Source.Literal
import TaskCab.Source.Statement

/-!
# Task wrappers

A task wrapper is a class with a call method. The signature of the method names the inputs of the task,
and a map assigned to `schema` in its body declares their types. The first class of the source, whichever
it is, documents the task.
-/

namespace TaskCab

/-- An input as the signature has it; a default is compact source text. -/
structure Parameter where
  name : String
  default : Option String
deriving DecidableEq, Repr

/-- The type that a schema declares for an input, and everything else it says of it. -/
structure SchemaEntry where
  type : String
  fields : List (String × SourceValue)
deriving Repr

namespace SchemaEntry

def unknownType : String := "unknown"

def empty : SchemaEntry := ⟨unknownType, []⟩

def ofFields (fields : List (String × SourceValue)) : SchemaEntry :=
  ⟨((Entries.get? "type" fields).map SourceValue.displayText).getD unknownType, fields⟩

end SchemaEntry

structure Task where
  className : Option String
  docstring : String
  parameters : List Parameter
  schema : List (String × SchemaEntry)
  hasOutputs : Bool
deriving Repr

namespace Task

open TaskCab.Source

def empty : Task := ⟨none, "", [], [], false⟩

def declaredType (task : Task) (name : String) : String :=
  ((Entries.get? name task.schema).getD .empty).type

def body (definition : Node) : List Node :=
  match definition.children with
  | block :: _ => block.children
  | [] => []

def headerName? : List Tree → Option (List Char)
  | _ :: name :: _ => name.word?
  | _ => none

def methodName : List Char := "__call__".toList

/-- The header and the node of the call method that a statement of a class defines. -/
def callMethod? : Node → Option (List Tree × Node)
  | .node (.functionDef header) children =>
      if headerName? header = some methodName then some (header, .node (.functionDef header) children)
      else none
  | .node .decorated [.node (.functionDef header) children] =>
      if headerName? header = some methodName then some (header, .node (.functionDef header) children)
      else none
  | _ => none

def findCallMethod? (class_ : Node) : Option (List Tree × Node) :=
  (body class_).findSome? callMethod?

/-- The text of a statement that is nothing but string literals, with at most a comma after them. -/
def stringStatement? (trees : List Tree) : Option (List Char) := do
  let parts := Literal.parts trees
  let strings :=
    match parts.getLast? with
    | some last =>
        if Literal.Part.isSymbol "," last && !Literal.Part.joined last then parts.dropLast else parts
    | none => parts
  if strings.isEmpty then none else Literal.strings? strings

def classDocstring? (class_ : Node) : Option (List Char) :=
  match body class_ with
  | .node (.simple trees) _ :: _ => stringStatement? trees
  | _ => none

/-- What a piece of a signature contributes. -/
inductive Piece where
  | parameter (parameter : Parameter)
  | skipped
  /-- A star: what follows is not positional. -/
  | star

def nameText (trees : List Tree) : String := String.ofList (Tree.text trees)

/-- A parameter without a default: a plain or annotated name. Annotated star parameters, tuples and the
slash are passed over; other stars end the positional parameters. -/
def bareParameter (trees : List Tree) : Piece :=
  let named := fun (tree : Tree) =>
    match tree.word? with
    | some name => Piece.parameter ⟨String.ofList name, none⟩
    | none => .skipped
  match trees with
  | [] => .skipped
  | first :: rest =>
      if rest.any (Tree.isSymbol ":") then named first
      else if Tree.isSymbol "*" first || Tree.isSymbol "**" first then .star
      else if rest.isEmpty then named first
      else .skipped

def parameterPiece (trees : List Tree) : Piece :=
  match Tree.cutOnce? "=" 0 trees with
  | some (target, value) =>
      let name := ((Tree.cutOnce? ":" 0 target).map Prod.fst).getD target
      .parameter ⟨nameText name, some (String.ofList (Compact.text (Tree.text value)))⟩
  | none => bareParameter trees

/-- The parameters before the first star. -/
def positional : List (List Tree) → List Parameter
  | [] => []
  | trees :: rest =>
      match parameterPiece trees with
      | .parameter parameter => parameter :: positional rest
      | .skipped => positional rest
      | .star => []

def roundInner? : Tree → Option (List Tree)
  | .group .round _ inner _ => some inner
  | _ => none

/-- The positional parameters of a method after the first, which is the object itself. -/
def signature (header : List Tree) : List Parameter :=
  match header.findSome? roundInner? with
  | some inner => (positional (Tree.cut "," inner)).drop 1
  | none => []

/-- The pieces of curly brackets, if they are a map and not a set or a comprehension. -/
def mapPieces? (trees : List Tree) : Option (List (List Tree)) :=
  match trees with
  | [.group .curly _ inner _] =>
      let pieces := Tree.cut "," inner
      let isMap :=
        match pieces with
        | [] | [[]] | [[], []] => true
        | piece :: _ =>
            piece.head?.any (Tree.isSymbol "**") || (Tree.cutOnce? ":" 0 piece).isSome
      if isMap && !inner.any (Tree.isWord "for") then some pieces else none
  | _ => none

def key? (trees : List Tree) : Option String :=
  match Literal.value? trees with
  | some (.str key) => some key
  | _ => none

def field? (trees : List Tree) : Option (String × SourceValue) := do
  let (before, after) ← Tree.cutOnce? ":" 0 trees
  some (← key? before, Literal.ofTrees after)

def schemaFields (trees : List Tree) : List (String × SourceValue) :=
  Entries.ofList (((mapPieces? trees).getD []).filterMap field?)

/-- The declaration of an input; names that are empty or not plain text declare nothing. -/
def declaration? (trees : List Tree) : Option (String × SchemaEntry) := do
  let (before, after) ← Tree.cutOnce? ":" 0 trees
  let name ← key? before
  if name.isEmpty then none else some (name, .ofFields (schemaFields after))

def schemaName : String := "schema"

/-- The pieces of the map that a statement assigns to the schema. Any annotation rules it out. -/
def assignedSchema? (trees : List Tree) : Option (List (List Tree)) :=
  let sides := Tree.cut "=" trees
  let targets := sides.dropLast
  let isSchema (target : List Tree) : Bool :=
    match target with
    | [tree] => Tree.isWord schemaName tree
    | _ => false
  if targets.any isSchema && !targets.any (fun target => target.any (Tree.isSymbol ":")) then
    sides.getLast?.bind mapPieces?
  else none

def statementSchema? : Node → Option (List (List Tree))
  | .node (.simple trees) _ => assignedSchema? trees
  | _ => none

/-- The last map assigned to the schema among the statements of a body. -/
def schemaOf (statements : List Node) : List (String × SchemaEntry) :=
  match (statements.filterMap statementSchema?).getLast? with
  | some pieces => Entries.ofList (pieces.filterMap declaration?)
  | none => []

def classHeaderName? (class_ : Node) : Option String :=
  match class_.kind with
  | .classDef header => (headerName? header).map String.ofList
  | _ => none

def documentation (classes : List Node) : String :=
  match classes with
  | first :: _ => String.ofList (((classDocstring? first).map Docstring.clean).getD [])
  | [] => ""

/-- The first class with a call method, with the header of the method and the method. -/
def owner? (classes : List Node) : Option (Node × List Tree × Node) :=
  classes.findSome? fun class_ => (findCallMethod? class_).map fun method => (class_, method)

def ofSource (source : List Char) : Task :=
  let classes := (Node.ofText source).classes
  let docstring := documentation classes
  match owner? classes with
  | none => { empty with docstring := docstring }
  | some (class_, header, method) =>
      ⟨classHeaderName? class_, docstring, signature header, schemaOf (body method),
        Node.anyReturnsValue (body method)⟩

end Task

end TaskCab
