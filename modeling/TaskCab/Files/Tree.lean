import TaskCab.Files.Path

/-!
# File trees

Files and directories by their places, and the directory that relative paths start from. Every operation
either fails for a stated cause and changes nothing, or changes the places that it names.
-/

namespace TaskCab

inductive FileError where
  | notFound
  | alreadyExists
  | notDirectory
  | isDirectory
  | notText
  | other (message : String)
deriving DecidableEq, Repr

namespace FileError

def message : FileError → String
  | notFound => "No such file or directory (os error 2)"
  | alreadyExists => "File exists (os error 17)"
  | notDirectory => "Not a directory (os error 20)"
  | isDirectory => "Is a directory (os error 21)"
  | notText => "stream did not contain valid UTF-8"
  | other message => message

end FileError

/-- The names on the way to a file or directory, from the inside out. The root has none. -/
abbrev Place := List String

inductive FileNode where
  | directory
  | file (content : ByteArray)

structure FileTree where
  nodes : List (Place × FileNode)
  workingDirectory : Place

namespace FileTree

def empty : FileTree := ⟨[], []⟩

def node? (tree : FileTree) (place : Place) : Option FileNode :=
  if place.isEmpty then some .directory else tree.nodes.lookup place

def put (tree : FileTree) (place : Place) (node : FileNode) : FileTree :=
  { tree with nodes := (place, node) :: tree.nodes.filter fun entry => entry.1 ≠ place }

def move (place : Place) (part : String) : Place :=
  if part = "." then place else if part = ".." then place.tail else part :: place

/-- Where parts lead. All places on the way must be directories; the last one may be missing. -/
def follow (tree : FileTree) (place : Place) : List String → Except FileError Place
  | [] => .ok place
  | part :: rest =>
      match tree.node? place with
      | none => .error .notFound
      | some (.file _) => .error .notDirectory
      | some .directory => follow tree (move place part) rest

def start (tree : FileTree) (path : String) : Place :=
  if Path.isAbsolute path then [] else tree.workingDirectory

/-- The place of a path, which may be missing. The empty path has none. -/
def place (tree : FileTree) (path : String) : Except FileError Place :=
  if path.isEmpty then .error .notFound else tree.follow (tree.start path) (Path.parts path)

/-- What stands at a path. A slash at the end asks for a directory. -/
def find (tree : FileTree) (path : String) : Except FileError FileNode := do
  let place ← tree.place path
  match tree.node? place with
  | none => .error .notFound
  | some .directory => .ok .directory
  | some (.file content) =>
      if Path.endsInSlash path then .error .notDirectory else .ok (.file content)

def isFile (tree : FileTree) (path : String) : Bool :=
  match tree.find path with
  | .ok (.file _) => true
  | _ => false

def read (tree : FileTree) (path : String) : Except FileError ByteArray := do
  match ← tree.find path with
  | .file content => .ok content
  | .directory => .error .isDirectory

def write (tree : FileTree) (path : String) (content : ByteArray) : Except FileError FileTree := do
  let place ← tree.place path
  match tree.node? place with
  | some .directory => .error .isDirectory
  | _ =>
      if Path.endsInSlash path then .error .isDirectory
      else .ok (tree.put place (.file content))

def makeAt (tree : FileTree) (place : Place) : Except FileError FileTree :=
  match tree.node? place with
  | some _ => .error .alreadyExists
  | none => .ok (tree.put place .directory)

def orPresent (tree : FileTree) (place : Place) : Except FileError FileTree :=
  match tree.node? place with
  | some .directory => .ok tree
  | _ => tree.makeAt place

def ensure (tree : FileTree) (start : Place) (parts : List String) : Except FileError FileTree := do
  tree.orPresent (← tree.follow start parts)

def createDirectories (tree : FileTree) (path : String) : Except FileError FileTree :=
  if path.isEmpty then .ok tree
  else
    let start := tree.start path
    match tree.ensure start (Path.parts path) with
    | .error .notFound => do
        let made ← (Path.ancestors path).foldlM (fun made parts => made.ensure start parts) tree
        made.ensure start (Path.parts path)
    | result => result

end FileTree

end TaskCab
