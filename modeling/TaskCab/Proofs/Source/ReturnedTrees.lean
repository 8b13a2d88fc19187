import TaskCab.Proofs.Source.ReturnedLines
import TaskCab.Proofs.Source.TreeCuts
import TaskCab.Source.Statement

/-!
# Statements with other line ends

The tree of statements of a source whose lines end in a carriage return and a line feed is that of the
source before, with the returns put into its tokens.
-/

namespace TaskCab.Source

open TaskCab.Text

/-! ## Bracket trees -/

namespace Tree

mutual

/-- A tree with the returns put in. -/
def returned : Tree → Tree
  | leaf token => leaf token.returned
  | group bracket opening inner closing =>
      group bracket opening.returned (allReturned inner) closing.returned

def allReturned : List Tree → List Tree
  | [] => []
  | tree :: rest => returned tree :: allReturned rest

end

theorem all_returned_eq (trees : List Tree) : allReturned trees = trees.map returned := by
  induction trees with
  | nil => rfl
  | cons tree rest ih => rw [allReturned, ih, List.map_cons]

theorem opened_returned (token : Token) : Bracket.opened? token.returned = Bracket.opened? token := by
  simp only [Bracket.opened?, token.is_symbol_returned (by decide : OnLine "(".toList),
    token.is_symbol_returned (by decide : OnLine "[".toList),
    token.is_symbol_returned (by decide : OnLine "\x7b".toList)]

theorem closed_returned (token : Token) : Bracket.closed? token.returned = Bracket.closed? token := by
  simp only [Bracket.closed?, token.is_symbol_returned (by decide : OnLine ")".toList),
    token.is_symbol_returned (by decide : OnLine "]".toList),
    token.is_symbol_returned (by decide : OnLine "\x7d".toList)]

def Open.returned (innermost : Open) : Open :=
  ⟨innermost.bracket, innermost.opening.returned, innermost.before.map Tree.returned⟩

theorem group_from_returned (stack : List Open) (trees : List Tree) (tokens : List Token) :
    groupFrom? (stack.map Open.returned) (trees.map returned) (tokens.map Token.returned) =
      (groupFrom? stack trees tokens).map (List.map returned) := by
  induction tokens generalizing stack trees with
  | nil =>
      cases stack with
      | nil => simp [groupFrom?]
      | cons innermost outer => rfl
  | cons token rest ih =>
      rw [List.map_cons, groupFrom?, groupFrom?, opened_returned, closed_returned]
      cases opens : Bracket.opened? token with
      | some bracket => exact ih (⟨bracket, token, trees⟩ :: stack) []
      | none =>
          cases closes : Bracket.closed? token with
          | none => exact ih stack (.leaf token :: trees)
          | some bracket =>
              cases stack with
              | nil => rfl
              | cons innermost outer =>
                  have later := ih outer
                    (.group bracket innermost.opening trees.reverse token :: innermost.before)
                  rw [List.map_cons, returned, all_returned_eq, List.map_reverse] at later
                  change (if innermost.bracket = bracket then _ else none) = Option.map _ (if _ then _ else _)
                  split
                  · exact later
                  · rfl

theorem of_tokens_returned (tokens : List Token) :
    ofTokens? (tokens.map Token.returned) = (ofTokens? tokens).map (List.map returned) :=
  group_from_returned [] [] tokens

mutual

theorem tokens_returned (tree : Tree) : tokens tree.returned = (tokens tree).map Token.returned := by
  match tree with
  | leaf token => rfl
  | group bracket opening inner closing =>
      rw [returned, tokens, tokens, all_tokens_returned inner, List.map_append, List.map_cons]
      rfl

theorem all_tokens_returned (trees : List Tree) :
    allTokens (allReturned trees) = (allTokens trees).map Token.returned := by
  match trees with
  | [] => rfl
  | tree :: rest =>
      rw [allReturned, allTokens, allTokens, tokens_returned tree, all_tokens_returned rest,
        List.map_append]

end

theorem tokens_text_returned (tokens : List Token) :
    tokensText (tokens.map Token.returned) = withReturns (tokensText tokens) := by
  induction tokens with
  | nil => rfl
  | cons token rest ih =>
      rw [List.map_cons, tokensText, tokensText, ih, with_returns_append, with_returns_append]
      rfl

/-- The text of trees with the returns put in. -/
theorem text_returned (trees : List Tree) : text (trees.map returned) = withReturns (text trees) := by
  rw [text, text, ← all_returned_eq, all_tokens_returned]
  cases allTokens trees with
  | nil => rfl
  | cons token rest =>
      rw [List.map_cons]
      dsimp only
      rw [tokens_text_returned, with_returns_append]
      rfl

theorem is_symbol_returned {symbol : String} (onLine : OnLine symbol.toList) (tree : Tree) :
    isSymbol symbol tree.returned = isSymbol symbol tree := by
  cases tree with
  | leaf token => exact token.is_symbol_returned onLine
  | group => rfl

theorem is_word_returned {word : String} (onLine : OnLine word.toList) (tree : Tree) :
    isWord word tree.returned = isWord word tree := by
  cases tree with
  | leaf token => exact token.is_word_returned onLine
  | group => rfl

theorem any_symbol_returned {symbol : String} (onLine : OnLine symbol.toList) (trees : List Tree) :
    (trees.map returned).any (isSymbol symbol) = trees.any (isSymbol symbol) := by
  rw [List.any_map]
  exact congrArg (List.any trees) (funext (is_symbol_returned onLine))

theorem head_symbol_returned {symbol : String} (onLine : OnLine symbol.toList) (trees : List Tree) :
    (trees.map returned).head?.any (isSymbol symbol) = trees.head?.any (isSymbol symbol) := by
  rw [List.head?_map, Option.any_map]
  exact congrArg (Option.any · _) (funext (is_symbol_returned onLine))

theorem word_returned (tree : Tree) : tree.returned.word? = tree.word?.map withReturns := by
  cases tree with
  | leaf token =>
      change (if token.kind = .word then some (withReturns token.text) else none) = _
      rw [word?]
      split <;> rfl
  | group => rfl

theorem count_from_returned (lambdas : Nat) (tree : Tree) :
    countFrom lambdas tree.returned = countFrom lambdas tree := by
  rw [countFrom, countFrom, is_word_returned (by decide), is_symbol_returned (by decide)]

theorem cut_from_returned {symbol : String} (onLine : OnLine symbol.toList) (lambdas : Nat)
    (trees : List Tree) :
    cutFrom symbol lambdas (trees.map returned) =
      (cutFrom symbol lambdas trees).map (List.map returned) := by
  induction trees generalizing lambdas with
  | nil => rfl
  | cons tree rest ih =>
      rw [List.map_cons, cutFrom, cutFrom, is_symbol_returned onLine, ih, ← countFrom, ← countFrom,
        count_from_returned]
      dsimp only
      rw [ih]
      split
      · rfl
      · cases cutFrom symbol (countFrom lambdas tree) rest <;> rfl

theorem cut_returned {symbol : String} (onLine : OnLine symbol.toList) (trees : List Tree) :
    cut symbol (trees.map returned) = (cut symbol trees).map (List.map returned) :=
  cut_from_returned onLine 0 trees

theorem cut_once_returned {symbol : String} (onLine : OnLine symbol.toList) (lambdas : Nat)
    (trees : List Tree) :
    cutOnce? symbol lambdas (trees.map returned) =
      (cutOnce? symbol lambdas trees).map fun sides => (sides.1.map returned, sides.2.map returned) := by
  induction trees generalizing lambdas with
  | nil => rfl
  | cons tree rest ih =>
      rw [List.map_cons, cutOnce?, cutOnce?, is_symbol_returned onLine, ← countFrom, ← countFrom,
        count_from_returned]
      dsimp only
      rw [ih]
      split
      · rfl
      · cases cutOnce? symbol (countFrom lambdas tree) rest <;> rfl

end Tree

/-! ## Outlines -/

namespace Outline

mutual

def returned : Outline → Outline
  | line trees below => line (trees.map Tree.returned) (allReturned below)

def allReturned : List Outline → List Outline
  | [] => []
  | outline :: rest => returned outline :: allReturned rest

end

theorem all_returned_eq (outlines : List Outline) : allReturned outlines = outlines.map returned := by
  induction outlines with
  | nil => rfl
  | cons outline rest ih => rw [allReturned, ih, List.map_cons]

theorem opens_block_returned (trees : List Tree) :
    opensBlock (trees.map Tree.returned) = opensBlock trees := by
  rw [opensBlock, opensBlock, List.getLast?_map, Option.any_map]
  exact congrArg (Option.any · _) (funext (Tree.is_symbol_returned (by decide)))

def entryReturned (entry : Nat × List Tree) : Nat × List Tree := (entry.1, entry.2.map Tree.returned)

/-- The lines below a line, and the lines after those. -/
def blockBelow (fuel indent : Nat) (trees : List Tree) (next : Nat × List Tree)
    (others : List (Nat × List Tree)) : List Outline × List (Nat × List Tree) :=
  if opensBlock trees && indent < next.1 then block fuel next.1 (next :: others) else ([], next :: others)

theorem block_cons {indent column : Nat} (inside : ¬column < indent) (fuel : Nat) (trees : List Tree)
    (next : Nat × List Tree) (others : List (Nat × List Tree)) :
    block (fuel + 1) indent ((column, trees) :: next :: others) =
      (line trees (blockBelow fuel indent trees next others).1 ::
          (block fuel indent (blockBelow fuel indent trees next others).2).1,
        (block fuel indent (blockBelow fuel indent trees next others).2).2) := by
  rw [block.eq_def]
  dsimp only
  rw [if_neg inside]
  rfl

theorem block_returned (fuel indent : Nat) (lines : List (Nat × List Tree)) :
    block fuel indent (lines.map entryReturned) =
      ((block fuel indent lines).1.map returned, (block fuel indent lines).2.map entryReturned) := by
  induction fuel generalizing indent lines with
  | zero => rfl
  | succ fuel ih =>
      cases lines with
      | nil => rfl
      | cons entry rest =>
          obtain ⟨column, trees⟩ := entry
          by_cases outside : column < indent
          · rw [List.map_cons, block.eq_def, block.eq_def]
            simp [entryReturned, outside]
          cases rest with
          | nil =>
              rw [List.map_cons, block.eq_def, block.eq_def]
              simp [entryReturned, outside, returned, allReturned]
          | cons next others =>
              have below : blockBelow fuel indent (trees.map Tree.returned) (entryReturned next)
                  (others.map entryReturned) =
                    ((blockBelow fuel indent trees next others).1.map returned,
                      (blockBelow fuel indent trees next others).2.map entryReturned) := by
                unfold blockBelow
                rw [opens_block_returned, ← List.map_cons, show (entryReturned next).1 = next.1 from rfl,
                  ih]
                split <;> rfl
              rw [List.map_cons, List.map_cons, entryReturned, block_cons outside, block_cons outside, below,
                ih, List.map_cons, returned, all_returned_eq]

theorem of_lines_returned (lines : List Line) :
    ofLines (lines.map Line.returned) = (ofLines lines).map returned := by
  have grouped : (lines.map Line.returned).filterMap (fun line =>
      (Tree.ofTokens? line.tokens).map fun trees => (line.indent, trees)) =
        (lines.filterMap fun line =>
          (Tree.ofTokens? line.tokens).map fun trees => (line.indent, trees)).map entryReturned := by
    rw [List.filterMap_map, List.map_filterMap]
    congr 1
    funext line
    change (Tree.ofTokens? (line.tokens.map Token.returned)).map _ = _
    rw [Tree.of_tokens_returned, Option.map_map, Option.map_map]
    rfl
  unfold ofLines
  dsimp only
  rw [grouped, List.length_map, block_returned]

end Outline

/-! ## Nodes -/

def NodeKind.returned : NodeKind → NodeKind
  | module => module
  | block => block
  | clause => clause
  | decorated => decorated
  | simple trees => simple (trees.map Tree.returned)
  | classDef header => classDef (header.map Tree.returned)
  | functionDef header => functionDef (header.map Tree.returned)
  | compound header => compound (header.map Tree.returned)

namespace Node

mutual

def returned : Node → Node
  | node kind children => node kind.returned (allReturned children)

def allReturned : List Node → List Node
  | [] => []
  | child :: rest => returned child :: allReturned rest

end

theorem all_returned_eq (nodes : List Node) : allReturned nodes = nodes.map returned := by
  induction nodes with
  | nil => rfl
  | cons child rest ih => rw [allReturned, ih, List.map_cons]

theorem returned_node (kind : NodeKind) (children : List Node) :
    returned (node kind children) = node kind.returned (children.map returned) := by
  rw [returned, all_returned_eq]

theorem starts_with_returned {words : List String} (onLine : ∀ word ∈ words, OnLine word.toList)
    (trees : List Tree) : startsWith words (trees.map Tree.returned) = startsWith words trees := by
  rw [startsWith, startsWith, List.head?_map, Option.any_map]
  cases trees.head? with
  | none => rfl
  | some tree =>
      have same : ∀ word ∈ words, Tree.isWord word tree.returned = Tree.isWord word tree :=
        fun word member => Tree.is_word_returned (onLine word member) tree
      rw [Option.any_some, Option.any_some, Bool.eq_iff_iff, List.any_eq_true,
        List.any_eq_true]
      exact exists_congr fun word => and_congr_right fun member => by rw [same word member]

theorem drop_async_returned (trees : List Tree) :
    dropAsync (trees.map Tree.returned) = (dropAsync trees).map Tree.returned := by
  rw [dropAsync, dropAsync, starts_with_returned (by decide), ← List.map_drop]
  split <;> rfl

theorem is_match_returned (trees : List Tree) : isMatch (trees.map Tree.returned) = isMatch trees := by
  rw [isMatch, isMatch, starts_with_returned (by decide), List.length_map, Outline.opens_block_returned]

theorem simple_nodes_returned (trees : List Tree) :
    simpleNodes (trees.map Tree.returned) = (simpleNodes trees).map returned := by
  have kept : (fun piece : List Tree => !piece.isEmpty) ∘ List.map Tree.returned =
      fun piece => !piece.isEmpty := by
    funext piece
    simp
  rw [simpleNodes, simpleNodes, Tree.cut_returned (by decide), List.filter_map, kept, List.map_map,
    List.map_map]
  rfl

theorem split_header_returned (trees : List Tree) :
    splitHeader (trees.map Tree.returned) =
      ((splitHeader trees).1.map Tree.returned, (splitHeader trees).2.map Tree.returned) := by
  rw [splitHeader, splitHeader, Tree.cut_once_returned (by decide)]
  cases Tree.cutOnce? ":" 0 trees <;> rfl

theorem block_of_returned (inline : List Tree) (below : List Node) :
    blockOf (inline.map Tree.returned) (below.map returned) = (blockOf inline below).returned := by
  rw [blockOf, blockOf, returned_node, simple_nodes_returned, List.map_append]
  rfl

def Reading.returned : Reading → Reading
  | statements nodes => statements (nodes.map Node.returned)
  | definition added => definition added.returned
  | decorator => decorator
  | clause block => clause block.returned

theorem read_line_returned (inMatch : Bool) (trees : List Tree) (below : List Node) :
    readLine inMatch (trees.map Tree.returned) (below.map returned) =
      (readLine inMatch trees below).returned := by
  unfold readLine
  rw [drop_async_returned, split_header_returned]
  dsimp only
  rw [block_of_returned, drop_async_returned, Tree.head_symbol_returned (by decide), is_match_returned, simple_nodes_returned,
    ← List.map_append]
  iterate 5 rw [starts_with_returned (by decide)]
  split
  · rfl
  split
  · rfl
  split
  · rfl
  split
  · rfl
  split
  · rfl
  split <;> rfl

theorem add_returned (state : Bool × List Node) (reading : Reading) :
    add (state.1, state.2.map returned) reading.returned =
      ((add state reading).1, (add state reading).2.map returned) := by
  obtain ⟨decorating, nodes⟩ := state
  cases reading with
  | statements added => simp [add, Reading.returned]
  | definition added =>
      cases decorating with
      | false => rfl
      | true => rfl
  | decorator => rfl
  | clause inner =>
      cases nodes with
      | nil => rfl
      | cons last rest =>
          obtain ⟨kind, children⟩ := last
          simp [add, addClause, Reading.returned, returned_node, NodeKind.returned]

theorem join_returned (readings : List Reading) :
    join (readings.map Reading.returned) = (join readings).map returned := by
  have added (state : Bool × List Node) :
      (readings.map Reading.returned).foldl add (state.1, state.2.map returned) =
        ((readings.foldl add state).1, (readings.foldl add state).2.map returned) := by
    induction readings generalizing state with
    | nil => rfl
    | cons reading rest ih => rw [List.map_cons, List.foldl_cons, List.foldl_cons, add_returned, ih]
  have joined := congrArg (fun state => state.2.reverse) (added (false, []))
  rw [join, join, List.map_reverse]
  exact joined

mutual

theorem of_outline_returned (inMatch : Bool) (outline : Outline) :
    ofOutline inMatch outline.returned = (ofOutline inMatch outline).returned := by
  match outline with
  | .line trees below =>
      rw [Outline.returned, ofOutline, ofOutline, is_match_returned, of_outlines_returned _ below,
        join_returned, read_line_returned]

theorem of_outlines_returned (inMatch : Bool) (outlines : List Outline) :
    ofOutlines inMatch (Outline.allReturned outlines) =
      (ofOutlines inMatch outlines).map Reading.returned := by
  match outlines with
  | [] => rfl
  | outline :: rest =>
      rw [Outline.allReturned, ofOutlines, ofOutlines, of_outline_returned inMatch outline,
        of_outlines_returned inMatch rest, List.map_cons]

end

mutual

theorem depth_returned (root : Node) : depth root.returned = depth root := by
  match root with
  | node kind children => rw [returned, depth, depth, depths_returned children]

theorem depths_returned (nodes : List Node) : depths (allReturned nodes) = depths nodes := by
  match nodes with
  | [] => rfl
  | child :: rest => rw [allReturned, depths, depths, depth_returned child, depths_returned rest]

end

theorem children_returned (parent : Node) : parent.returned.children = parent.children.map returned := by
  obtain ⟨kind, children⟩ := parent
  rw [returned_node]
  rfl

theorem is_class_returned (child : Node) : isClass child.returned = isClass child := by
  obtain ⟨kind, children⟩ := child
  cases kind <;> rfl

theorem classes_from_returned (levels : Nat) (nodes : List Node) :
    classesFrom levels (nodes.map returned) = (classesFrom levels nodes).map returned := by
  induction levels generalizing nodes with
  | zero => rfl
  | succ levels ih =>
      have inner : (nodes.map returned).flatMap children = (nodes.flatMap children).map returned := by
        rw [List.flatMap_map, List.map_flatMap]
        exact congrArg (List.flatMap · nodes) (funext children_returned)
      have classes : isClass ∘ returned = isClass := funext is_class_returned
      rw [classesFrom, classesFrom, inner, ih, List.filter_map, classes, List.map_append]

theorem classes_returned (root : Node) : root.returned.classes = root.classes.map returned := by
  rw [classes, classes, depth_returned]
  exact classes_from_returned _ [root]

theorem is_return_returned (trees : List Tree) :
    isReturn (trees.map Tree.returned) = isReturn trees := by
  rw [isReturn, isReturn, starts_with_returned (by decide), List.length_map]

mutual

theorem returns_value_returned (statement : Node) :
    returnsValue statement.returned = returnsValue statement := by
  match statement with
  | node kind children =>
      have inner := any_returns_returned children
      cases kind with
      | simple trees =>
          rw [returned, NodeKind.returned, returnsValue, returnsValue, is_return_returned, inner]
      | module | block | clause | decorated | classDef | functionDef | compound => exact inner

theorem any_returns_returned (nodes : List Node) :
    anyReturnsValue (allReturned nodes) = anyReturnsValue nodes := by
  match nodes with
  | [] => rfl
  | child :: rest =>
      rw [allReturned, anyReturnsValue, anyReturnsValue, returns_value_returned child,
        any_returns_returned rest]

end

/-- The tree of a source with the returns put in. -/
theorem of_text_returned {source : List Char} (noReturn : '\r' ∉ source)
    (parses : Line.Parses (withReturns source)) :
    ofText (withReturns source) = (ofText source).returned := by
  rw [ofText, ofText, Line.of_text_returned noReturn parses, Outline.of_lines_returned,
    ← Outline.all_returned_eq, of_outlines_returned, join_returned, returned_node]
  rfl

end Node

end TaskCab.Source
