import TaskCab.Source.Tree

/-!
# Statements

The lines of a task source make a tree of statements. Its depth is that of the source's syntax: a compound
statement holds a block, which holds statements; a clause after the first, such as `else`, stands between
the two; a decorated definition lies below its decorators.
-/

namespace TaskCab.Source

inductive NodeKind where
  | module
  | block
  /-- A later clause of a compound statement, or a case of a match. -/
  | clause
  /-- A definition under its decorators. -/
  | decorated
  | simple (trees : List Tree)
  | classDef (header : List Tree)
  | functionDef (header : List Tree)
  | compound (header : List Tree)
deriving Repr

inductive Node where
  | node (kind : NodeKind) (children : List Node)
deriving Repr

namespace Node

def kind : Node → NodeKind
  | node kind _ => kind

def children : Node → List Node
  | node _ children => children

end Node

/-- A line with the lines that are indented below it, if it opens a block. -/
inductive Outline where
  | line (trees : List Tree) (below : List Outline)
deriving Repr

namespace Outline

/-- A line ends in a colon exactly if the block below it starts on the next line. -/
def opensBlock (trees : List Tree) : Bool := trees.getLast?.any (Tree.isSymbol ":")

/-- Reads the lines of the block with an indentation, and gives back the lines after it. A line belongs
to the innermost block that is not indented further than itself; each line costs one unit of fuel. -/
def block : Nat → Nat → List (Nat × List Tree) → List Outline × List (Nat × List Tree)
  | 0, _, lines => ([], lines)
  | _, _, [] => ([], [])
  | fuel + 1, indent, (column, trees) :: rest =>
      if column < indent then ([], (column, trees) :: rest)
      else
        match rest with
        | (next, _) :: _ =>
            let (below, rest) :=
              if opensBlock trees && indent < next then block fuel next rest else ([], rest)
            let (siblings, rest) := block fuel indent rest
            (line trees below :: siblings, rest)
        | [] => ([line trees []], [])

def ofLines (lines : List Line) : List Outline :=
  let grouped := lines.filterMap fun line =>
    (Tree.ofTokens? line.tokens).map fun trees => (line.indent, trees)
  (block (grouped.length + 1) 0 grouped).1

end Outline

namespace Node

def startsWith (words : List String) (trees : List Tree) : Bool :=
  trees.head?.any fun tree => words.any fun word => Tree.isWord word tree

def dropAsync (trees : List Tree) : List Tree :=
  if startsWith ["async"] trees then trees.drop 1 else trees

def compoundWords : List String := ["if", "while", "for", "try", "with"]

def clauseWords : List String := ["elif", "else", "except", "finally"]

/-- Words that open a match or one of its cases; elsewhere they are names. A match opens a block, and a
case stands in one. -/
def isMatch (trees : List Tree) : Bool :=
  startsWith ["match"] trees && 2 < trees.length && Outline.opensBlock trees

def simpleNodes (trees : List Tree) : List Node :=
  ((Tree.cut ";" trees).filter fun piece => !piece.isEmpty).map fun piece =>
    node (.simple piece) []

def splitHeader (trees : List Tree) : List Tree × List Tree :=
  (Tree.cutOnce? ":" 0 trees).getD (trees, [])

/-- The block of a compound statement: the statements on its line, or those below. -/
def blockOf (inline : List Tree) (below : List Node) : Node :=
  node .block (simpleNodes inline ++ below)

inductive Reading where
  | statements (nodes : List Node)
  | definition (node : Node)
  | decorator
  | clause (block : Node)

/-- Reads a line; within a match its lines are cases. -/
def readLine (inMatch : Bool) (trees : List Tree) (below : List Node) : Reading :=
  let bare := dropAsync trees
  let (header, inline) := splitHeader trees
  let inner := blockOf inline below
  if trees.head?.any (Tree.isSymbol "@") then .decorator
  else if startsWith ["class"] bare then .definition (node (.classDef (dropAsync header)) [inner])
  else if startsWith ["def"] bare then .definition (node (.functionDef (dropAsync header)) [inner])
  else if startsWith clauseWords bare then .clause inner
  else if inMatch && startsWith ["case"] trees then .statements [node .clause [inner]]
  else if startsWith compoundWords bare || isMatch trees then
    .statements [node (.compound header) [inner]]
  else .statements (simpleNodes trees ++ below)

/-- Adds a later clause to the last of the nodes, which are given from the end. -/
def addClause (inner : Node) : List Node → List Node
  | node kind children :: rest => node kind (children ++ [node .clause [inner]]) :: rest
  | [] => [inner]

/-- Adds a line to the statements before it, given from the end; the flag says that decorators are
waiting for their definition. -/
def add (state : Bool × List Node) (reading : Reading) : Bool × List Node :=
  let (decorating, nodes) := state
  match reading with
  | .statements added => (false, added.reverse ++ nodes)
  | .definition added =>
      (false, (if decorating then node .decorated [added] else added) :: nodes)
  | .decorator => (true, nodes)
  | .clause inner => (false, addClause inner nodes)

def join (readings : List Reading) : List Node := (readings.foldl add (false, [])).2.reverse

mutual

def ofOutlines (inMatch : Bool) : List Outline → List Reading
  | [] => []
  | outline :: rest => ofOutline inMatch outline :: ofOutlines inMatch rest

def ofOutline (inMatch : Bool) : Outline → Reading
  | .line trees below => readLine inMatch trees (join (ofOutlines (isMatch trees) below))

end

def ofText (source : List Char) : Node :=
  node .module (join (ofOutlines false (Outline.ofLines (Line.ofText source))))

mutual

def depth : Node → Nat
  | node _ children => depths children + 1

def depths : List Node → Nat
  | [] => 0
  | child :: rest => max (depth child) (depths rest)

end

def isClass : Node → Bool
  | node (.classDef _) _ => true
  | _ => false

/-- The classes among nodes and below them, level by level and in source order on each level. -/
def classesFrom : Nat → List Node → List Node
  | 0, _ => []
  | levels + 1, nodes =>
      nodes.filter isClass ++ classesFrom levels (nodes.flatMap children)

def classes (root : Node) : List Node := classesFrom root.depth [root]

def isReturn (trees : List Tree) : Bool := startsWith ["return"] trees && 1 < trees.length

mutual

/-- Whether a return with a value stands at a node or anywhere below it. -/
def returnsValue : Node → Bool
  | node (.simple trees) children => isReturn trees || anyReturnsValue children
  | node _ children => anyReturnsValue children

def anyReturnsValue : List Node → Bool
  | [] => false
  | child :: rest => returnsValue child || anyReturnsValue rest

end

end Node

end TaskCab.Source
