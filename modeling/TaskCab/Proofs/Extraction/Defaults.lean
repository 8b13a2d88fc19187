import TaskCab.Proofs.Source.CompactReading
import TaskCab.Proofs.Source.Headers
import TaskCab.Task

/-!
# Defaults of a signature

A default is read from its compact text, while an entry of a schema is read from its trees. Both ways
agree on an expression that is plain data unless compaction breaks it, and on any other expression unless
compacting it twice drops one more comma.
-/

namespace TaskCab.Task

open TaskCab.Source

def headerDefaults (header : List Tree) : List (List Tree) :=
  match header.findSome? roundInner? with
  | some inner => (Tree.cut "," inner).filterMap fun piece => (Tree.cutOnce? "=" 0 piece).map Prod.snd
  | none => []

/-- The trees of the defaults of the call method of a source. -/
def sourceDefaults (source : List Char) : List (List Tree) :=
  match owner? (Node.ofText source).classes with
  | some (_, header, _) => headerDefaults header
  | none => []

theorem bare_parameter_default {trees : List Tree} {parameter : Parameter}
    (piece : bareParameter trees = .parameter parameter) : parameter.default = none := by
  cases trees with
  | nil => simp [bareParameter] at piece
  | cons first rest =>
      cases word : first.word? with
      | none =>
          simp only [bareParameter, word] at piece
          split_ifs at piece
      | some name =>
          simp only [bareParameter, word] at piece
          split_ifs at piece
          all_goals
            obtain rfl := Piece.parameter.inj piece
            rfl

/-- A default of a signature is the compact text of an expression there. -/
theorem piece_default {piece : List Tree} {parameter : Parameter}
    (found : parameterPiece piece = .parameter parameter) {text : String}
    (given : parameter.default = some text) :
    ∃ target expression, Tree.cutOnce? "=" 0 piece = some (target, expression) ∧
      text = String.ofList (Compact.text (Tree.text expression)) := by
  unfold parameterPiece at found
  split at found
  next target expression cut =>
    obtain rfl := Piece.parameter.inj found
    exact ⟨target, expression, cut, (Option.some.inj given).symm⟩
  next => simp [bare_parameter_default found] at given

theorem mem_positional {pieces : List (List Tree)} {parameter : Parameter}
    (member : parameter ∈ positional pieces) :
    ∃ piece ∈ pieces, parameterPiece piece = .parameter parameter := by
  induction pieces with
  | nil => simp [positional] at member
  | cons piece rest ih =>
      have later (inRest : parameter ∈ positional rest) :
          ∃ other ∈ piece :: rest, parameterPiece other = .parameter parameter := by
        obtain ⟨other, inside, found⟩ := ih inRest
        exact ⟨other, .tail _ inside, found⟩
      rw [positional] at member
      split at member
      next first isPiece =>
        rcases List.mem_cons.mp member with rfl | inRest
        · exact ⟨piece, .head _, isPiece⟩
        · exact later inRest
      next => exact later member
      next => simp at member

theorem parameter_default {source : List Char} {parameter : Parameter}
    (member : parameter ∈ (ofSource source).parameters) {text : String}
    (given : parameter.default = some text) :
    ∃ expression ∈ sourceDefaults source,
      text = String.ofList (Compact.text (Tree.text expression)) := by
  unfold ofSource at member
  unfold sourceDefaults
  dsimp only at member
  cases found : owner? (Node.ofText source).classes with
  | none => simp [found, empty] at member
  | some owner =>
      obtain ⟨class_, header, method⟩ := owner
      rw [found] at member
      change parameter ∈ signature header at member
      change ∃ expression ∈ headerDefaults header, _
      unfold signature at member
      unfold headerDefaults
      cases inside : header.findSome? roundInner? with
      | none => simp [inside] at member
      | some inner =>
          rw [inside] at member
          obtain ⟨piece, inCut, isPiece⟩ := mem_positional (List.mem_of_mem_drop member)
          obtain ⟨target, expression, cut, same⟩ := piece_default isPiece given
          exact ⟨expression, List.mem_filterMap.mpr ⟨piece, inCut, by rw [cut]; rfl⟩, same⟩

theorem call_method_header {holds : List Tree → Prop} {statement method : Node} {header : List Tree}
    (found : callMethod? statement = some (header, method)) (all : statement.AllHeaders holds) :
    holds header := by
  unfold callMethod? at found
  split at found
  · split at found
    · obtain ⟨rfl, -⟩ := Prod.mk.inj (Option.some.inj found)
      exact all.1 _ rfl
    · simp at found
  · split at found
    · obtain ⟨rfl, -⟩ := Prod.mk.inj (Option.some.inj found)
      exact all.2.1.1 _ rfl
    · simp at found
  · simp at found

/-- The signature of the call method stands within a line of its source. -/
theorem owner_within {source : List Char} {class_ method : Node} {header : List Tree}
    (found : owner? (Node.ofText source).classes = some (class_, header, method)) :
    Node.IsWithinLine source header := by
  have all : Node.EachHeader (Node.IsWithinLine source) (Node.ofText source).classes :=
    Node.classes_headers ⟨Node.headers_of_text source, trivial⟩
  obtain ⟨owner, inClasses, isOwner⟩ := List.exists_of_findSome?_eq_some found
  obtain ⟨method, isMethod, same⟩ := Option.map_eq_some_iff.mp isOwner
  obtain ⟨rfl, rfl⟩ := Prod.mk.inj same
  obtain ⟨statement, inBody, isCall⟩ := List.exists_of_findSome?_eq_some isMethod
  have headers := Node.headers_of_children (Node.each_header_iff.mp all owner inClasses)
  unfold body at inBody
  cases children : owner.children with
  | nil => simp [children] at inBody
  | cons block rest =>
      rw [children] at inBody
      exact call_method_header isCall
        (Node.headers_of_children (headers block (children ▸ .head _)) statement inBody)

/-- Where an expression stands in a source: behind a token, and in front of a comma or a closing
bracket. -/
structure StandsIn (source : List Char) (expression : List Tree) : Prop where
  balanced : Tree.AllBalanced expression
  whole : Tree.Whole "," 0 expression
  within : ∃ line ∈ Line.ofText source, ∃ before closer behind,
    line.tokens = before ++ (Tree.allTokens expression ++ closer :: behind) ∧
      (∃ token ∈ before, token.kind ≠ .stray) ∧
        (closer.isSymbol "," = true ∨ closer.isSymbol ")" = true)

theorem closer_behind {after : List Tree} (follows : ∀ tree ∈ after.head?, Tree.isSymbol "," tree = true)
    {closing : Token} (closes : closing.isSymbol ")" = true) (rest : List Token) :
    ∃ closer behind, Tree.allTokens after ++ closing :: rest = closer :: behind ∧
      (closer.isSymbol "," = true ∨ closer.isSymbol ")" = true) := by
  cases after with
  | nil => exact ⟨closing, rest, rfl, .inr closes⟩
  | cons tree others =>
      obtain ⟨token, rfl, -⟩ := Tree.leaf_of_is_symbol (follows tree rfl)
      exact ⟨token, _, rfl, .inl (follows _ rfl)⟩

theorem group_of_round {tree : Tree} {inner : List Tree} (round : roundInner? tree = some inner) :
    ∃ opening closing, tree = .group .round opening inner closing := by
  unfold roundInner? at round
  split at round
  next opening within closing =>
    obtain rfl := Option.some.inj round
    exact ⟨opening, closing, rfl⟩
  next => simp at round

theorem default_within {source : List Char} {expression : List Tree}
    (member : expression ∈ sourceDefaults source) : StandsIn source expression := by
  unfold sourceDefaults at member
  split at member
  next class_ header method found =>
    obtain ⟨line, inSource, trees, grouped, left, right, split⟩ := owner_within found
    obtain ⟨balanced, areTokens⟩ := Tree.of_tokens_sound grouped
    unfold headerDefaults at member
    cases inside : header.findSome? roundInner? with
    | none => simp [inside] at member
    | some inner =>
        rw [inside] at member
        obtain ⟨piece, inCut, isDefault⟩ := List.mem_filterMap.mp member
        obtain ⟨⟨target, _⟩, cut, rfl⟩ := Option.map_eq_some_iff.mp isDefault
        obtain ⟨group, inHeader, isRound⟩ := List.exists_of_findSome?_eq_some inside
        obtain ⟨front, rear, rfl⟩ := List.append_of_mem inHeader
        obtain ⟨whole, before, after, rfl, follows⟩ := Tree.piece_within inCut
        obtain ⟨equals, isEquals, rfl⟩ := Tree.cut_once_within cut
        obtain ⟨opening, closing, rfl⟩ := group_of_round isRound
        rw [← split] at balanced areTokens
        simp only [Tree.all_balanced_append, Tree.AllBalanced, Tree.Balanced] at balanced
        obtain ⟨⟨-, -, ⟨⟨-, -, closed, -, ⟨-, -, expression⟩, -⟩, -⟩⟩, -⟩ := balanced
        refine ⟨expression, Tree.cut_once_whole whole cut, line, inSource, ?_⟩
        have closes : closing.isSymbol ")" = true :=
          Tree.is_symbol_of_lexeme (@Eq.trans _ _ _ (Token.lexeme ⟨[], false, .symbol, [')']⟩)
            (Tree.lexeme_of_closed closed) rfl) ")"
        obtain ⟨closer, behind, same, closerCases⟩ := closer_behind follows closes
          (Tree.allTokens rear ++ Tree.allTokens right)
        obtain ⟨sign, rfl, kind, -⟩ := Tree.leaf_of_is_symbol isEquals
        have seen : sign.kind ≠ .stray := by simp [kind]
        refine ⟨Tree.allTokens left ++ (Tree.allTokens front ++
          opening :: (Tree.allTokens before ++ (Tree.allTokens target ++ [sign]))), closer, behind, ?_,
          ⟨sign, by simp, seen⟩, closerCases⟩
        rw [← areTokens, ← same]
        simp [Tree.all_tokens_append, Tree.allTokens, Tree.tokens]
  next => simp at member

/-- Every default of a task is the compact text of an expression of its source. What it is decoded to is
what the expression is decoded to, exactly if compaction breaks no lexeme of plain data, and drops no
comma behind another one in anything else. -/
theorem defaults_decoded (source : List Char)
    (legal : ∀ expression ∈ sourceDefaults source, Literal.isLegal expression = true) :
    (∀ parameter ∈ (ofSource source).parameters, ∀ text, parameter.default = some text →
        ∃ expression ∈ sourceDefaults source,
          text = String.ofList (Compact.text (Tree.text expression))) ∧
      ∀ expression ∈ sourceDefaults source,
        (Literal.decode (Compact.text (Tree.text expression)) = Literal.ofTrees expression ↔
          if (Literal.value? expression).isSome then
            Compact.unbroken false (Lexeme.scan (Tree.text expression)) = true
          else Compact.Settled (Tree.text expression)) := by
  refine ⟨fun parameter member text => parameter_default member, fun expression member => ?_⟩
  have isLegal := Literal.legal_of_is_legal (legal expression member)
  obtain ⟨balanced, whole, line, inSource, before, closer, behind, split, seen, closes⟩ :=
    default_within member
  obtain ⟨lexemes, tail, spelled⟩ := Line.spelled_of_infix inSource split seen closes isLegal.nonempty
    isLegal.tokens isLegal.noNull
  exact Literal.decode_compact_iff spelled balanced isLegal whole

def laidOutSource : String :=
  "class T:\n def __call__(self,x=[1, # one\n 'a'\n  'b',\n],y=-\\\n1,z='c' \\\n 'd'):\n  pass\n"

theorem defaults_decoded_of_laid_out :
    (∀ expression ∈ sourceDefaults laidOutSource.toList, Literal.isLegal expression = true) ∧
      (ofSource laidOutSource.toList).parameters =
        [⟨"x", some "[1, 'a' 'b']"⟩, ⟨"y", some "-\\ 1"⟩, ⟨"z", some "'c' \\ 'd'"⟩] ∧
      (sourceDefaults laidOutSource.toList).map (fun expression =>
        ((Literal.value? expression).isSome,
          Compact.unbroken false (Lexeme.scan (Tree.text expression)))) =
        [(true, true), (true, false), (true, false)] ∧
      ∀ expression ∈ sourceDefaults laidOutSource.toList,
        (Literal.decode (Compact.text (Tree.text expression)) = Literal.ofTrees expression ↔
          if (Literal.value? expression).isSome then
            Compact.unbroken false (Lexeme.scan (Tree.text expression)) = true
          else Compact.Settled (Tree.text expression)) := by
  have legal : ∀ expression ∈ sourceDefaults laidOutSource.toList,
      Literal.isLegal expression = true := by decide +kernel
  exact ⟨legal, by decide +kernel, by decide +kernel, (defaults_decoded laidOutSource.toList legal).2⟩

end TaskCab.Task
