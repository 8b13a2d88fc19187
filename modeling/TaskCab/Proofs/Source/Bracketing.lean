import Mathlib.Data.List.Basic
import TaskCab.Source.Tree

/-!
# Bracket trees and their tokens

Grouping tokens by their brackets and listing the tokens of trees undo each other, on trees whose groups
have matching brackets and whose leaves are no brackets.
-/

namespace TaskCab.Source.Tree

mutual

/-- Whether brackets are where the structure of a tree says they are, and nowhere else. -/
def Balanced : Tree → Prop
  | leaf token => Bracket.opened? token = none ∧ Bracket.closed? token = none
  | group bracket opening inner closing =>
      Bracket.opened? opening = some bracket ∧ Bracket.opened? closing = none ∧
        Bracket.closed? closing = some bracket ∧ AllBalanced inner

def AllBalanced : List Tree → Prop
  | [] => True
  | tree :: rest => Balanced tree ∧ AllBalanced rest

end

theorem all_balanced_append {left right : List Tree} :
    AllBalanced (left ++ right) ↔ AllBalanced left ∧ AllBalanced right := by
  induction left with
  | nil => simp [AllBalanced]
  | cons tree rest ih => simp [AllBalanced, ih, and_assoc]

theorem all_balanced_reverse {trees : List Tree} :
    AllBalanced trees.reverse ↔ AllBalanced trees := by
  induction trees with
  | nil => rfl
  | cons tree rest ih =>
      simp only [List.reverse_cons, all_balanced_append, AllBalanced, ih]
      tauto

theorem all_tokens_append (left right : List Tree) :
    allTokens (left ++ right) = allTokens left ++ allTokens right := by
  induction left with
  | nil => rfl
  | cons tree rest ih => simp [allTokens, ih]

mutual

theorem group_from_tree {tree : Tree} (balanced : Balanced tree) (stack : List Open)
    (before : List Tree) (rest : List Token) :
    groupFrom? stack before (tokens tree ++ rest) = groupFrom? stack (tree :: before) rest := by
  match tree with
  | leaf token =>
      simp only [Balanced] at balanced
      simp [tokens, groupFrom?, balanced.1, balanced.2]
  | group bracket opening inner closing =>
      simp only [Balanced] at balanced
      obtain ⟨opened, notOpened, closed, within⟩ := balanced
      have grouped := group_from_trees within (⟨bracket, opening, before⟩ :: stack) []
        (closing :: rest)
      simp only [tokens, List.cons_append, List.append_assoc, List.nil_append]
      rw [groupFrom?, opened]
      dsimp only
      rw [grouped, groupFrom?, notOpened]
      simp [closed]

theorem group_from_trees {trees : List Tree} (balanced : AllBalanced trees) (stack : List Open)
    (before : List Tree) (rest : List Token) :
    groupFrom? stack before (allTokens trees ++ rest) =
      groupFrom? stack (trees.reverse ++ before) rest := by
  match trees with
  | [] => rfl
  | tree :: more =>
      simp only [AllBalanced] at balanced
      rw [allTokens, List.append_assoc, group_from_tree balanced.1, group_from_trees balanced.2]
      simp

end

/-- The tokens of balanced trees group into the trees again. -/
theorem of_tokens_all_tokens {trees : List Tree} (balanced : AllBalanced trees) :
    ofTokens? (allTokens trees) = some trees := by
  have grouped := group_from_trees balanced [] [] []
  simpa [ofTokens?, groupFrom?] using grouped

def readTokens : List Open → List Tree → List Token
  | [], trees => allTokens trees.reverse
  | innermost :: outer, trees =>
      readTokens outer innermost.before ++ innermost.opening :: allTokens trees.reverse

def OpenBalanced (stack : List Open) (trees : List Tree) : Prop :=
  AllBalanced trees ∧ ∀ entry ∈ stack,
    Bracket.opened? entry.opening = some entry.bracket ∧ AllBalanced entry.before

theorem read_tokens_cons (stack : List Open) (trees : List Tree) (tree : Tree) :
    readTokens stack (tree :: trees) = readTokens stack trees ++ tokens tree := by
  cases stack <;> simp [readTokens, all_tokens_append, allTokens]

theorem group_from_sound {stack : List Open} {trees : List Tree} {rest : List Token}
    {result : List Tree} (found : groupFrom? stack trees rest = some result)
    (opens : OpenBalanced stack trees) :
    AllBalanced result ∧ allTokens result = readTokens stack trees ++ rest := by
  induction rest generalizing stack trees with
  | nil =>
      cases stack with
      | nil =>
          obtain rfl : trees.reverse = result := by simpa [groupFrom?] using found
          exact ⟨all_balanced_reverse.mpr opens.1, by simp [readTokens]⟩
      | cons entry outer => simp [groupFrom?] at found
  | cons token rest ih =>
      rw [groupFrom?.eq_def] at found
      simp only at found
      split at found
      next bracket opened =>
        have result := ih found ⟨trivial, List.forall_mem_cons.mpr ⟨⟨opened, opens.1⟩, opens.2⟩⟩
        simpa [readTokens, allTokens] using result
      next notOpened =>
        split at found
        next notClosed =>
          have result := ih found ⟨⟨⟨notOpened, notClosed⟩, opens.1⟩, opens.2⟩
          simpa [read_tokens_cons, tokens] using result
        next bracket closed =>
          cases stack with
          | nil => simp at found
          | cons innermost outer =>
              dsimp only at found
              split at found
              next same =>
                obtain ⟨⟨opened, before⟩, others⟩ := List.forall_mem_cons.mp opens.2
                have group : Balanced (.group bracket innermost.opening trees.reverse token) :=
                  ⟨same ▸ opened, notOpened, closed, all_balanced_reverse.mpr opens.1⟩
                have result := ih found ⟨⟨group, before⟩, others⟩
                simpa [read_tokens_cons, tokens, readTokens] using result
              next => simp at found

/-- Grouping keeps all tokens and makes balanced trees. -/
theorem of_tokens_sound {tokens : List Token} {trees : List Tree}
    (found : ofTokens? tokens = some trees) :
    AllBalanced trees ∧ allTokens trees = tokens := by
  have result := group_from_sound found ⟨trivial, by simp⟩
  simpa [readTokens, allTokens] using result

end TaskCab.Source.Tree
