import Mathlib.Tactic.SplitIfs
import TaskCab.Proofs.Source.TreeCuts
import TaskCab.Task

/-!
# Signatures

What the grammar asks of the parameters of a method: a name or a tuple, with an annotation or a default,
a star or a slash. The parameters that are collected from such a signature have names.
-/

namespace TaskCab

open TaskCab.Source TaskCab.Text

namespace Task

/-- Whether a tree is an identifier; no such holds a blank character. -/
def isName : Tree → Bool
  | .leaf token =>
      token.kind = .word && !token.text.isEmpty && token.text.all fun character => !isBlank character
  | .group .. => false

def isTuple : Tree → Bool
  | .group .round opening _ _ => opening.isSymbol "("
  | _ => false

def isStar (tree : Tree) : Bool := Tree.isSymbol "*" tree || Tree.isSymbol "**" tree

/-- Whether the trees between two commas of a signature are a parameter. -/
def isParameter : List Tree → Bool
  | [] => true
  | [tree] => isName tree || isTuple tree || isStar tree || Tree.isSymbol "/" tree
  | first :: second :: _ =>
      isName first && (Tree.isSymbol ":" second || Tree.isSymbol "=" second) ||
        isTuple first && Tree.isSymbol "=" second || isStar first

def isSignature (header : List Tree) : Bool :=
  match header.findSome? roundInner? with
  | some inner => (Tree.cut "," inner).all isParameter
  | none => true

/-- Whether the signature of the call method has nothing but parameters between its commas, as it has in
every source that parses without a syntax error. -/
def signatureParses (source : List Char) : Bool :=
  match owner? (Node.ofText source).classes with
  | some (_, header, _) => isSignature header
  | none => true

/-- Whether a text has a character that is not blank. -/
def IsVisible (name : String) : Prop := isBlankText name.toList = false

def Leads (tree : Tree) : Prop :=
  ∃ token rest, Tree.tokens tree = token :: rest ∧ ∃ character ∈ token.text, isBlank character = false

theorem leads_name {tree : Tree} (name : isName tree = true) : Leads tree := by
  cases tree with
  | group => simp [isName] at name
  | leaf token =>
      simp only [isName, Bool.and_eq_true, decide_eq_true_eq, Bool.not_eq_true',
        List.all_eq_true] at name
      obtain ⟨⟨-, nonempty⟩, visible⟩ := name
      obtain ⟨first, others, text⟩ :=
        List.exists_cons_of_ne_nil (by simpa using nonempty : token.text ≠ [])
      have inText : first ∈ token.text := by simp [text]
      exact ⟨token, [], rfl, first, inText, by simpa using visible first inText⟩

theorem leads_symbol {tree : Tree} {symbol : String} (isSymbol : Tree.isSymbol symbol tree = true)
    (visible : ∃ character ∈ symbol.toList, isBlank character = false) : Leads tree := by
  obtain ⟨token, rfl, -, text⟩ := Tree.leaf_of_is_symbol isSymbol
  exact ⟨token, [], rfl, by rw [text]; exact visible⟩

theorem leads_tuple {tree : Tree} (tuple : isTuple tree = true) : Leads tree := by
  cases tree with
  | leaf => simp [isTuple] at tuple
  | group bracket opening inner closing =>
      cases bracket with
      | square | curly => simp [isTuple] at tuple
      | round =>
          simp only [isTuple, Token.isSymbol, Bool.and_eq_true, decide_eq_true_eq] at tuple
          refine ⟨opening, Tree.allTokens inner ++ [closing], rfl, ?_⟩
          rw [tuple.2]
          exact ⟨'(', by simp, rfl⟩

theorem name_text_visible {tree : Tree} (leads : Leads tree) (rest : List Tree) :
    IsVisible (nameText (tree :: rest)) := by
  obtain ⟨token, others, tokens, character, inText, visible⟩ := leads
  have text : Tree.text (tree :: rest) =
      token.text ++ Tree.tokensText (others ++ Tree.allTokens rest) := by
    rw [Tree.text, Tree.allTokens, tokens]
    rfl
  have member : character ∈ (nameText (tree :: rest)).toList := by
    rw [nameText, String.toList_ofList, text]
    exact List.mem_append_left _ inText
  exact List.all_eq_false.mpr ⟨character, member, by simp [visible]⟩

theorem cut_once_front {symbol : String} {first : Tree} {rest before after : List Tree}
    (different : Tree.isSymbol symbol first = false)
    (found : Tree.cutOnce? symbol 0 (first :: rest) = some (before, after)) :
    ∃ more, before = first :: more := by
  rw [Tree.cutOnce?] at found
  simp only [different, Bool.and_false, Bool.false_eq_true, if_false] at found
  obtain ⟨⟨earlier, later⟩, -, same⟩ := Option.map_eq_some_iff.mp found
  exact ⟨earlier, (Prod.mk.inj same).1.symm⟩

structure StartsParameter (tree : Tree) : Prop where
  leads : Leads tree
  noColon : Tree.isSymbol ":" tree = false
  noEquals : Tree.isSymbol "=" tree = false

theorem starts_name {tree : Tree} (name : isName tree = true) : StartsParameter tree := by
  have leads := leads_name name
  cases tree with
  | group => exact ⟨leads, rfl, rfl⟩
  | leaf token =>
      simp only [isName, Bool.and_eq_true, decide_eq_true_eq] at name
      exact ⟨leads, by simp [Tree.isSymbol, Token.isSymbol, name.1.1],
        by simp [Tree.isSymbol, Token.isSymbol, name.1.1]⟩

theorem starts_tuple {tree : Tree} (tuple : isTuple tree = true) : StartsParameter tree := by
  have leads := leads_tuple tuple
  cases tree with
  | leaf => simp [isTuple] at tuple
  | group => exact ⟨leads, rfl, rfl⟩

theorem starts_symbol {tree : Tree} {symbol : String} (isSymbol : Tree.isSymbol symbol tree = true)
    (known : symbol ∈ ["*", "**", "/"]) : StartsParameter tree := by
  have visible : ∃ character ∈ symbol.toList, isBlank character = false := by
    simp only [List.mem_cons, List.not_mem_nil, or_false] at known
    rcases known with rfl | rfl | rfl
    · exact ⟨'*', by simp, rfl⟩
    · exact ⟨'*', by simp, rfl⟩
    · exact ⟨'/', by simp, rfl⟩
  have leads := leads_symbol isSymbol visible
  obtain ⟨token, rfl, -, text⟩ := Tree.leaf_of_is_symbol isSymbol
  simp only [List.mem_cons, List.not_mem_nil, or_false] at known
  refine ⟨leads, ?_, ?_⟩ <;>
    rcases known with rfl | rfl | rfl <;> simp [Tree.isSymbol, Token.isSymbol, text]

theorem starts_star {tree : Tree} (star : isStar tree = true) : StartsParameter tree := by
  rcases Bool.or_eq_true_iff.mp star with one | two
  · exact starts_symbol one (by simp)
  · exact starts_symbol two (by simp)

theorem starts_parameter {first : Tree} {rest : List Tree}
    (parameter : isParameter (first :: rest) = true) : StartsParameter first := by
  cases rest with
  | nil =>
      simp only [isParameter, Bool.or_eq_true] at parameter
      rcases parameter with ((name | tuple) | star) | slash
      · exact starts_name name
      · exact starts_tuple tuple
      · exact starts_star star
      · exact starts_symbol slash (by simp)
  | cons second rest =>
      simp only [isParameter, Bool.or_eq_true, Bool.and_eq_true] at parameter
      rcases parameter with (⟨name, -⟩ | ⟨tuple, -⟩) | star
      · exact starts_name name
      · exact starts_tuple tuple
      · exact starts_star star

theorem word_visible {tree : Tree} {word : List Char} (isWord : tree.word? = some word)
    (leads : Leads tree) : IsVisible (String.ofList word) := by
  cases tree with
  | group => simp [Tree.word?] at isWord
  | leaf token =>
      obtain ⟨other, rest, tokens, character, inText, visible⟩ := leads
      obtain ⟨rfl, rfl⟩ : token = other ∧ [] = rest := by simpa [Tree.tokens] using tokens
      have text : token.text = word := by
        simp only [Tree.word?] at isWord
        split at isWord
        · simpa using isWord
        · simp at isWord
      refine List.all_eq_false.mpr ⟨character, ?_, by simp [visible]⟩
      rwa [String.toList_ofList, ← text]

theorem bare_parameter_visible {first : Tree} (leads : Leads first) {rest : List Tree}
    {parameter : Parameter} (piece : bareParameter (first :: rest) = .parameter parameter) :
    IsVisible parameter.name := by
  cases word : first.word? with
  | none =>
      simp only [bareParameter, word] at piece
      split_ifs at piece
  | some name =>
      have visible := word_visible word leads
      simp only [bareParameter, word] at piece
      split_ifs at piece
      all_goals
        obtain rfl := Piece.parameter.inj piece
        exact visible

theorem parameter_piece_visible {trees : List Tree} (legal : isParameter trees = true)
    {parameter : Parameter} (piece : parameterPiece trees = .parameter parameter) :
    IsVisible parameter.name := by
  cases trees with
  | nil => simp [parameterPiece, Tree.cutOnce?, bareParameter] at piece
  | cons first rest =>
      obtain ⟨leads, noColon, noEquals⟩ := starts_parameter legal
      cases found : Tree.cutOnce? "=" 0 (first :: rest) with
      | none =>
          rw [parameterPiece, found] at piece
          exact bare_parameter_visible leads piece
      | some sides =>
          obtain ⟨target, value⟩ := sides
          obtain ⟨more, rfl⟩ := cut_once_front noEquals found
          rw [parameterPiece, found] at piece
          obtain rfl := Piece.parameter.inj piece
          dsimp only
          cases annotated : Tree.cutOnce? ":" 0 (first :: more) with
          | none => exact name_text_visible leads more
          | some sides =>
              obtain ⟨before, after⟩ := sides
              obtain ⟨others, rfl⟩ := cut_once_front noColon annotated
              exact name_text_visible leads others

theorem positional_visible {pieces : List (List Tree)}
    (all : ∀ trees ∈ pieces, isParameter trees = true) :
    ∀ parameter ∈ positional pieces, IsVisible parameter.name := by
  induction pieces with
  | nil => simp [positional]
  | cons trees rest ih =>
      have later := ih fun other member => all other (.tail _ member)
      intro parameter member
      rw [positional] at member
      split at member
      next found piece =>
        rcases List.mem_cons.mp member with rfl | inRest
        · exact parameter_piece_visible (all trees (.head _)) piece
        · exact later parameter inRest
      next => exact later parameter member
      next => simp at member

theorem signature_visible {header : List Tree} (parses : isSignature header = true) :
    ∀ parameter ∈ signature header, IsVisible parameter.name := by
  intro parameter member
  cases found : header.findSome? roundInner? with
  | none => simp [signature, found] at member
  | some inner =>
      rw [isSignature, found] at parses
      rw [signature, found] at member
      exact positional_visible (List.all_eq_true.mp parses) parameter
        (List.mem_of_mem_drop member)

theorem parameters_visible {source : List Char} (parses : signatureParses source = true) :
    ∀ parameter ∈ (ofSource source).parameters, IsVisible parameter.name := by
  unfold signatureParses at parses
  unfold ofSource
  dsimp only
  split at parses
  next class_ header method found =>
    rw [found]
    exact signature_visible parses
  next none =>
    rw [none]
    intro parameter member
    simp [empty] at member

end Task

end TaskCab
