import TaskCab.Source.Tree

/-!
# Cutting trees

The pieces that a cut makes hold no cut symbol outside of the parameters of a `lambda`, and stand between
cut symbols in the trees.
-/

namespace TaskCab.Source.Tree

def countFrom (lambdas : Nat) (tree : Tree) : Nat :=
  if isWord "lambda" tree then lambdas + 1 else if isSymbol ":" tree then lambdas - 1 else lambdas

/-- Whether a cut would make one piece of some trees. -/
def Whole (symbol : String) (lambdas : Nat) (trees : List Tree) : Prop :=
  cutFrom symbol lambdas trees = [trees]

variable {symbol : String} {lambdas : Nat} {tree : Tree} {trees rest : List Tree}

theorem leaf_of_is_symbol (symbolic : isSymbol symbol tree = true) :
    ∃ token, tree = .leaf token ∧ token.kind = .symbol ∧ token.text = symbol.toList := by
  cases tree with
  | group => simp [isSymbol] at symbolic
  | leaf token =>
      simp only [isSymbol, Token.isSymbol, Bool.and_eq_true, decide_eq_true_eq] at symbolic
      exact ⟨token, rfl, symbolic⟩

theorem cut_from_ne_nil (symbol : String) (lambdas : Nat) (trees : List Tree) :
    cutFrom symbol lambdas trees ≠ [] := by
  cases trees with
  | nil => simp [cutFrom]
  | cons tree rest =>
      rw [cutFrom]
      split
      · simp
      · dsimp only
        split <;> simp

/-- A cut at a tree either starts a new piece or puts the tree in front of the first one behind it. -/
theorem cut_from_cons (symbol : String) (lambdas : Nat) (tree : Tree) (rest : List Tree) :
    (lambdas = 0 ∧ isSymbol symbol tree = true ∧
        cutFrom symbol lambdas (tree :: rest) = [] :: cutFrom symbol 0 rest) ∨
      ¬(lambdas = 0 ∧ isSymbol symbol tree = true) ∧ ∃ piece pieces,
        cutFrom symbol (countFrom lambdas tree) rest = piece :: pieces ∧
          cutFrom symbol lambdas (tree :: rest) = (tree :: piece) :: pieces := by
  by_cases cuts : lambdas = 0 ∧ isSymbol symbol tree = true
  · refine .inl ⟨cuts.1, cuts.2, ?_⟩
    rw [cutFrom]
    simp [cuts.1, cuts.2]
  · refine .inr ⟨cuts, ?_⟩
    have passes : (decide (lambdas = 0) && isSymbol symbol tree) = false := by
      simpa [Decidable.not_and_iff_or_not] using cuts
    cases found : cutFrom symbol (countFrom lambdas tree) rest with
    | nil => exact absurd found (cut_from_ne_nil symbol _ rest)
    | cons piece pieces =>
        refine ⟨piece, pieces, rfl, ?_⟩
        unfold countFrom at found
        rw [cutFrom, passes]
        simp only [Bool.false_eq_true, if_false, found]

theorem whole_cons : Whole symbol lambdas (tree :: rest) ↔
    ¬(lambdas = 0 ∧ isSymbol symbol tree = true) ∧ Whole symbol (countFrom lambdas tree) rest := by
  unfold Whole
  rcases cut_from_cons symbol lambdas tree rest with
    ⟨zero, symbolic, cut⟩ | ⟨passes, piece, pieces, found, cut⟩
  · rw [cut]
    simp [zero, symbolic]
  · rw [cut, found]
    simp [passes]

/-- Without a `lambda` no cut symbol is in a piece. -/
theorem no_symbol_of_whole (whole : Whole symbol 0 trees)
    (noLambda : ∀ tree ∈ trees, isWord "lambda" tree = false) :
    ∀ tree ∈ trees, isSymbol symbol tree = false := by
  induction trees with
  | nil => simp
  | cons tree rest ih =>
      obtain ⟨passes, later⟩ := whole_cons.mp whole
      obtain ⟨noWord, noLater⟩ := List.forall_mem_cons.mp noLambda
      have count : countFrom 0 tree = 0 := by simp [countFrom, noWord]
      rw [count] at later
      exact List.forall_mem_cons.mpr ⟨by simpa using passes, ih later noLater⟩

/-- The first piece is whole, and ends with the trees or in front of a cut symbol. -/
theorem first_piece {piece : List Tree} {pieces : List (List Tree)}
    (cut : cutFrom symbol lambdas trees = piece :: pieces) :
    Whole symbol lambdas piece ∧ (trees = piece ∧ pieces = [] ∨
      ∃ tree rest, isSymbol symbol tree = true ∧ trees = piece ++ tree :: rest ∧
        pieces = cutFrom symbol 0 rest) := by
  induction trees generalizing lambdas piece pieces with
  | nil =>
      obtain ⟨rfl, rfl⟩ := List.cons.inj cut
      exact ⟨rfl, .inl ⟨rfl, rfl⟩⟩
  | cons tree rest ih =>
      rcases cut_from_cons symbol lambdas tree rest with ⟨zero, symbolic, same⟩ |
        ⟨passes, front, others, found, same⟩
      · rw [cut] at same
        obtain ⟨rfl, rfl⟩ := List.cons.inj same
        exact ⟨rfl, .inr ⟨tree, rest, symbolic, rfl, rfl⟩⟩
      · rw [cut] at same
        obtain ⟨rfl, rfl⟩ := List.cons.inj same
        obtain ⟨whole, ends⟩ := ih found
        refine ⟨whole_cons.mpr ⟨passes, whole⟩, ?_⟩
        rcases ends with ⟨rfl, rfl⟩ | ⟨next, behind, symbolic, rfl, rfl⟩
        · exact .inl ⟨rfl, rfl⟩
        · exact .inr ⟨next, behind, symbolic, rfl, rfl⟩

/-- A piece is whole, and stands between the start or a cut symbol and the end or a cut symbol. -/
theorem piece_within {trees piece : List Tree} (member : piece ∈ cut symbol trees) :
    Whole symbol 0 piece ∧ ∃ before after, trees = before ++ (piece ++ after) ∧
      ∀ tree ∈ after.head?, isSymbol symbol tree = true := by
  unfold cut at member
  cases found : cutFrom symbol 0 trees with
  | nil => exact absurd found (cut_from_ne_nil symbol 0 trees)
  | cons first pieces =>
      obtain ⟨whole, ends⟩ := first_piece found
      rw [found] at member
      rcases ends with ⟨rfl, rfl⟩ | ⟨tree, rest, symbolic, rfl, rfl⟩
      · obtain rfl := List.mem_singleton.mp member
        exact ⟨whole, [], [], by simp, by simp⟩
      · rcases List.mem_cons.mp member with rfl | later
        · refine ⟨whole, [], tree :: rest, rfl, fun other isHead => ?_⟩
          obtain rfl : tree = other := by simpa using isHead
          exact symbolic
        · obtain ⟨whole, before, after, rfl, follows⟩ := piece_within later
          exact ⟨whole, first ++ tree :: before, after, by simp, follows⟩
termination_by trees.length
decreasing_by simp_all; omega

theorem cut_once_within {before after : List Tree}
    (found : cutOnce? symbol lambdas trees = some (before, after)) :
    ∃ tree, isSymbol symbol tree = true ∧ trees = before ++ tree :: after := by
  induction trees generalizing lambdas before with
  | nil => simp [cutOnce?] at found
  | cons tree rest ih =>
      rw [cutOnce?] at found
      split at found
      next cuts =>
        obtain ⟨rfl, rfl⟩ := Prod.mk.inj (Option.some.inj found)
        exact ⟨tree, (Bool.and_eq_true_iff.mp cuts).2, rfl⟩
      next =>
        obtain ⟨⟨left, right⟩, later, same⟩ := Option.map_eq_some_iff.mp found
        obtain ⟨rfl, rfl⟩ := Prod.mk.inj same
        obtain ⟨other, symbolic, rfl⟩ := ih later
        exact ⟨other, symbolic, rfl⟩

/-- What stands behind one cut symbol is whole for another one if the trees are. -/
theorem cut_once_whole {other : String} {before after : List Tree}
    (whole : Whole other lambdas trees)
    (found : cutOnce? symbol lambdas trees = some (before, after)) : Whole other 0 after := by
  induction trees generalizing lambdas before with
  | nil => simp [cutOnce?] at found
  | cons tree rest ih =>
      obtain ⟨-, later⟩ := whole_cons.mp whole
      rw [cutOnce?] at found
      split at found
      next cuts =>
        obtain ⟨-, rfl⟩ := Prod.mk.inj (Option.some.inj found)
        obtain ⟨zero, symbolic⟩ := Bool.and_eq_true_iff.mp cuts
        obtain ⟨token, rfl, kind, -⟩ := leaf_of_is_symbol symbolic
        have noWord : isWord "lambda" (.leaf token) = false := by
          simp [isWord, Token.isWord, kind]
        have count : countFrom lambdas (.leaf token) = 0 := by
          rw [countFrom, noWord, of_decide_eq_true zero]
          simp
        rwa [count] at later
      next =>
        obtain ⟨⟨left, right⟩, cutLater, same⟩ := Option.map_eq_some_iff.mp found
        obtain ⟨rfl, rfl⟩ := Prod.mk.inj same
        exact ih later cutLater

/-! ## Expressions between cuts -/

theorem whole_append {left right : List Tree} : Whole symbol lambdas (left ++ right) ↔
    Whole symbol lambdas left ∧ Whole symbol (left.foldl countFrom lambdas) right := by
  induction left generalizing lambdas with
  | nil => simp [Whole, cutFrom]
  | cons first left ih =>
      rw [List.cons_append, whole_cons, whole_cons, ih, List.foldl_cons, and_assoc]

/-- Whether trees have no cut at a symbol in them, and leave no colon to come. -/
def Settled (symbol : String) (trees : List Tree) : Prop :=
  Whole symbol 0 trees ∧ trees.foldl countFrom 0 = 0

theorem settled_append {left right : List Tree} (first : Settled symbol left)
    (second : Settled symbol right) : Settled symbol (left ++ right) := by
  refine ⟨whole_append.mpr ⟨first.1, ?_⟩, ?_⟩
  · rw [first.2]
    exact second.1
  · rw [List.foldl_append, first.2, second.2]

theorem settled_nil (symbol : String) : Settled symbol [] := ⟨rfl, rfl⟩

theorem settled_leaf {token : Token} (noCut : token.isSymbol symbol = false)
    (noLambda : token.isWord "lambda" = false) : Settled symbol [leaf token] := by
  refine ⟨whole_cons.mpr ⟨by simp [isSymbol, noCut], rfl⟩, ?_⟩
  simp [countFrom, isWord, noLambda]

theorem cut_from_settled (whole : Whole symbol lambdas trees) (settled : trees.foldl countFrom lambdas = 0)
    (cuts : isSymbol symbol tree = true) (rest : List Tree) :
    cutFrom symbol lambdas (trees ++ tree :: rest) = trees :: cutFrom symbol 0 rest := by
  induction trees generalizing lambdas with
  | nil =>
      obtain rfl : lambdas = 0 := settled
      simp [cutFrom, cuts]
  | cons first trees ih =>
      obtain ⟨passes, later⟩ := whole_cons.mp whole
      have found := ih later settled
      rcases cut_from_cons symbol lambdas first (trees ++ tree :: rest) with
        ⟨zero, symbolic, -⟩ | ⟨-, piece, pieces, behind, cut⟩
      · exact absurd ⟨zero, symbolic⟩ passes
      · rw [found] at behind
        obtain ⟨rfl, rfl⟩ := List.cons.inj behind
        exact cut

/-- A cut ends settled trees at a cut symbol behind them. -/
theorem cut_settled (settled : Settled symbol trees) (cuts : isSymbol symbol tree = true)
    (rest : List Tree) : cut symbol (trees ++ tree :: rest) = trees :: cut symbol rest :=
  cut_from_settled settled.1 settled.2 cuts rest

theorem cut_once_cons (passes : ¬(lambdas = 0 ∧ isSymbol symbol tree = true)) (rest : List Tree) :
    cutOnce? symbol lambdas (tree :: rest) =
      (cutOnce? symbol (countFrom lambdas tree) rest).map fun (before, after) => (tree :: before, after) := by
  have noCut : (decide (lambdas = 0) && isSymbol symbol tree) = false := by
    simpa [Decidable.not_and_iff_or_not] using passes
  rw [cutOnce?, noCut]
  rfl

theorem cut_once_none (whole : Whole symbol lambdas trees) : cutOnce? symbol lambdas trees = none := by
  induction trees generalizing lambdas with
  | nil => rfl
  | cons tree rest ih =>
      obtain ⟨passes, later⟩ := whole_cons.mp whole
      rw [cut_once_cons passes, ih later, Option.map_none]

theorem cut_once_from_settled (whole : Whole symbol lambdas trees)
    (settled : trees.foldl countFrom lambdas = 0) (cuts : isSymbol symbol tree = true) (rest : List Tree) :
    cutOnce? symbol lambdas (trees ++ tree :: rest) = some (trees, rest) := by
  induction trees generalizing lambdas with
  | nil =>
      obtain rfl : lambdas = 0 := settled
      simp [cutOnce?, cuts]
  | cons first trees ih =>
      obtain ⟨passes, later⟩ := whole_cons.mp whole
      rw [List.cons_append, cut_once_cons passes, ih later settled, Option.map_some]

theorem cut_once_settled (settled : Settled symbol trees) (cuts : isSymbol symbol tree = true)
    (rest : List Tree) : cutOnce? symbol 0 (trees ++ tree :: rest) = some (trees, rest) :=
  cut_once_from_settled settled.1 settled.2 cuts rest

/-- Whether trees can be an expression: each `lambda` in them has its colon, and outside of its parameters
there is no comma, colon or equals sign. -/
structure IsExpression (trees : List Tree) : Prop where
  noComma : Settled "," trees
  noColon : Settled ":" trees
  noEquals : Settled "=" trees

mutual

def decideEq : (left right : Tree) → Decidable (left = right)
  | leaf token, leaf other => decidable_of_iff (token = other) (by simp)
  | leaf _, group .. => isFalse nofun
  | group .., leaf _ => isFalse nofun
  | group bracket opening inner closing, group other first others last =>
      have := decideAllEq inner others
      decidable_of_iff (bracket = other ∧ opening = first ∧ inner = others ∧ closing = last) (by simp)

def decideAllEq : (left right : List Tree) → Decidable (left = right)
  | [], [] => isTrue rfl
  | [], _ :: _ => isFalse nofun
  | _ :: _, [] => isFalse nofun
  | first :: rest, other :: others =>
      have := decideEq first other
      have := decideAllEq rest others
      decidable_of_iff (first = other ∧ rest = others) (by simp)

end

instance : DecidableEq Tree := decideEq

instance : Decidable (Settled symbol trees) :=
  inferInstanceAs (Decidable (cutFrom symbol 0 trees = [trees] ∧ trees.foldl countFrom 0 = 0))

instance : Decidable (IsExpression trees) :=
  decidable_of_iff (Settled "," trees ∧ Settled ":" trees ∧ Settled "=" trees)
    ⟨fun ⟨comma, colon, equals⟩ => ⟨comma, colon, equals⟩,
      fun expression => ⟨expression.noComma, expression.noColon, expression.noEquals⟩⟩

/-! ## Trees without a cut -/

def Plain (symbol : String) (trees : List Tree) : Prop :=
  ∀ tree ∈ trees, isSymbol symbol tree = false ∧ isWord "lambda" tree = false

theorem plain_cons : Plain symbol (tree :: trees) ↔
    (isSymbol symbol tree = false ∧ isWord "lambda" tree = false) ∧ Plain symbol trees :=
  List.forall_mem_cons

theorem plain_nil : Plain symbol [] := by simp [Plain]

theorem count_of_plain (plain : isWord "lambda" tree = false) : countFrom 0 tree = 0 := by
  simp [countFrom, plain]

theorem cut_plain (plain : Plain symbol trees) : cut symbol trees = [trees] := by
  induction trees with
  | nil => rfl
  | cons tree rest ih =>
      obtain ⟨⟨noSymbol, noLambda⟩, later⟩ := plain_cons.mp plain
      refine whole_cons.mpr ⟨by simp [noSymbol], ?_⟩
      rw [count_of_plain noLambda]
      exact ih later

theorem cut_plain_append (plain : Plain symbol trees) (cuts : isSymbol symbol tree = true)
    (rest : List Tree) : cut symbol (trees ++ tree :: rest) = trees :: cut symbol rest := by
  induction trees with
  | nil => simp [cut, cutFrom, cuts]
  | cons first trees ih =>
      obtain ⟨⟨noSymbol, noLambda⟩, later⟩ := plain_cons.mp plain
      have found := ih later
      unfold cut at found ⊢
      rcases cut_from_cons symbol 0 first (trees ++ tree :: rest) with
        ⟨-, symbolic, -⟩ | ⟨-, piece, pieces, behind, whole⟩
      · simp [noSymbol] at symbolic
      · rw [count_of_plain noLambda, found] at behind
        obtain ⟨rfl, rfl⟩ := List.cons.inj behind
        exact whole

theorem cut_once_plain (plain : Plain symbol trees) : cutOnce? symbol 0 trees = none := by
  induction trees with
  | nil => rfl
  | cons tree rest ih =>
      obtain ⟨⟨noSymbol, noLambda⟩, later⟩ := plain_cons.mp plain
      simp [cutOnce?, noSymbol, noLambda, ih later]

theorem cut_once_plain_append (plain : Plain symbol trees) (cuts : isSymbol symbol tree = true)
    (rest : List Tree) : cutOnce? symbol 0 (trees ++ tree :: rest) = some (trees, rest) := by
  induction trees with
  | nil => simp [cutOnce?, cuts]
  | cons first trees ih =>
      obtain ⟨⟨noSymbol, noLambda⟩, later⟩ := plain_cons.mp plain
      simp [cutOnce?, noSymbol, noLambda, ih later]

end TaskCab.Source.Tree
