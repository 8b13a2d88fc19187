import Mathlib.Data.List.Basic
import TaskCab.Proofs.Source.TreeCuts
import TaskCab.Task

/-!
# The positional part of a signature

A signature is written from named parameters, stars and slashes. The parameters that are collected from it
are those in front of the first star, each with the compact text of its default. A star with an annotation
does not count, so that parameters behind it are collected as well.
-/

namespace TaskCab

open TaskCab.Source

namespace Task

/-! ## Signatures -/

structure Addition where
  mark : Token
  expression : List Tree

namespace Addition

def trees (addition : Addition) : List Tree := .leaf addition.mark :: addition.expression

structure IsValid (symbol : String) (addition : Addition) : Prop where
  mark : addition.mark.isSymbol symbol = true
  expression : Tree.IsExpression addition.expression

instance (symbol : String) (addition : Addition) : Decidable (addition.IsValid symbol) :=
  decidable_of_iff (addition.mark.isSymbol symbol = true ∧ Tree.IsExpression addition.expression)
    ⟨fun ⟨mark, expression⟩ => ⟨mark, expression⟩, fun valid => ⟨valid.mark, valid.expression⟩⟩

end Addition

inductive SignatureItem where
  | named (name : Token) (typing default : Option Addition)
  | star (mark : Token)
  /-- A star or two stars in front of the name that takes the other arguments. -/
  | collector (mark name : Token) (typing : Option Addition)
  | slash (mark : Token)

namespace SignatureItem

def additionTrees (addition : Option Addition) : List Tree := (addition.map Addition.trees).getD []

def trees : SignatureItem → List Tree
  | named name typing default => .leaf name :: (additionTrees typing ++ additionTrees default)
  | star mark => [.leaf mark]
  | collector mark name typing => .leaf mark :: .leaf name :: additionTrees typing
  | slash mark => [.leaf mark]

def IsNameToken (token : Token) : Prop := token.kind = .word ∧ token.isWord "lambda" = false

instance : DecidablePred IsNameToken := fun _ => inferInstanceAs (Decidable (_ ∧ _))

def IsValid : SignatureItem → Prop
  | named name typing default =>
      IsNameToken name ∧ (∀ addition ∈ typing, addition.IsValid ":") ∧
        ∀ addition ∈ default, addition.IsValid "="
  | star mark => mark.isSymbol "*" = true
  | collector mark name typing =>
      (mark.isSymbol "*" = true ∨ mark.isSymbol "**" = true) ∧ IsNameToken name ∧
        ∀ addition ∈ typing, addition.IsValid ":"
  | slash mark => mark.isSymbol "/" = true

instance : DecidablePred IsValid
  | named .. => inferInstanceAs (Decidable (_ ∧ _ ∧ _))
  | star _ => inferInstanceAs (Decidable (_ = true))
  | collector .. => inferInstanceAs (Decidable (_ ∧ _ ∧ _))
  | slash _ => inferInstanceAs (Decidable (_ = true))

def bare : SignatureItem → SignatureItem
  | named name _ default => named name none default
  | collector mark name _ => collector mark name none
  | item => item

def namedParameter (name : Token) (default : Option Addition) : Parameter :=
  ⟨String.ofList name.text,
    default.map fun addition => String.ofList (Compact.text (Tree.text addition.expression))⟩

def parameter? : SignatureItem → Option Parameter
  | named name _ default => some (namedParameter name default)
  | _ => none

/-- A star of any kind: what follows has to be given by name. -/
def isStar : SignatureItem → Bool
  | star _ | collector .. => true
  | _ => false

/-- A star without an annotation. -/
def isBareStar : SignatureItem → Bool
  | star _ | collector _ _ none => true
  | _ => false

end SignatureItem

open SignatureItem

def positionalPart (items : List SignatureItem) : List Parameter :=
  (items.takeWhile fun item => !item.isStar).filterMap parameter?

/-- The parameters that can be given only by name, up to the first star without an annotation. -/
def behindAnnotatedStar (items : List SignatureItem) : List Parameter :=
  ((items.dropWhile fun item => !item.isStar).takeWhile fun item => !item.isBareStar).filterMap parameter?

/-- A signature: items with a comma behind each, and the last item, unless the last comma ends it. -/
structure Signature where
  closed : List (SignatureItem × Token)
  last : Option SignatureItem

namespace Signature

def items (signature : Signature) : List SignatureItem := signature.closed.map Prod.fst ++ signature.last.toList

def trees (signature : Signature) : List Tree :=
  signature.closed.flatMap (fun (item, comma) => item.trees ++ [.leaf comma]) ++
    (signature.last.map SignatureItem.trees).getD []

structure IsValid (signature : Signature) : Prop where
  items : ∀ item ∈ signature.items, item.IsValid
  commas : ∀ entry ∈ signature.closed, entry.2.isSymbol "," = true

instance (signature : Signature) : Decidable signature.IsValid :=
  decidable_of_iff ((∀ item ∈ signature.items, item.IsValid) ∧
      ∀ entry ∈ signature.closed, entry.2.isSymbol "," = true)
    ⟨fun ⟨items, commas⟩ => ⟨items, commas⟩, fun valid => ⟨valid.items, valid.commas⟩⟩

def bare (signature : Signature) : Signature :=
  ⟨signature.closed.map fun (item, comma) => (item.bare, comma), signature.last.map SignatureItem.bare⟩

end Signature

/-! ## Items -/

theorem not_word_of_symbol {token : Token} {symbol : String} (isSymbol : token.isSymbol symbol = true)
    (word : String) : token.isWord word = false := by
  simp only [Token.isSymbol, Bool.and_eq_true, decide_eq_true_eq] at isSymbol
  simp [Token.isWord, isSymbol.1]

theorem not_symbol_of_word {token : Token} (isWord : token.kind = .word) (symbol : String) :
    token.isSymbol symbol = false := by
  simp [Token.isSymbol, isWord]

theorem not_symbol_of_other {token : Token} {symbol other : String}
    (isSymbol : token.isSymbol symbol = true) (different : symbol ≠ other) :
    token.isSymbol other = false := by
  simp only [Token.isSymbol, Bool.and_eq_true, decide_eq_true_eq] at isSymbol
  have texts : symbol.toList ≠ other.toList := fun same => different (String.toList_inj.mp same)
  simp [Token.isSymbol, isSymbol.2, texts]

theorem settled_name {name : Token} (isName : IsNameToken name) (symbol : String) :
    Tree.Settled symbol [.leaf name] :=
  Tree.settled_leaf (not_symbol_of_word isName.1 symbol) isName.2

theorem settled_mark {mark : Token} {symbol other : String} (isSymbol : mark.isSymbol symbol = true)
    (different : symbol ≠ other) : Tree.Settled other [.leaf mark] :=
  Tree.settled_leaf (not_symbol_of_other isSymbol different) (not_word_of_symbol isSymbol "lambda")

theorem settled_addition {addition : Option Addition} {symbol other : String}
    (valid : ∀ given ∈ addition, given.IsValid symbol) (different : symbol ≠ other)
    (expression : ∀ {trees}, Tree.IsExpression trees → Tree.Settled other trees) :
    Tree.Settled other (additionTrees addition) := by
  cases addition with
  | none => exact Tree.settled_nil other
  | some given =>
      obtain ⟨mark, isExpression⟩ := valid given rfl
      exact Tree.settled_append (settled_mark mark different) (expression isExpression)

theorem settled_star {mark : Token} {symbol : String}
    (isStar : mark.isSymbol "*" = true ∨ mark.isSymbol "**" = true) (one : "*" ≠ symbol)
    (two : "**" ≠ symbol) : Tree.Settled symbol [.leaf mark] :=
  isStar.elim (settled_mark · one) (settled_mark · two)

theorem item_settled {item : SignatureItem} (valid : item.IsValid) : Tree.Settled "," item.trees := by
  have annotated {typing : Option Addition} (given : ∀ addition ∈ typing, addition.IsValid ":") :
      Tree.Settled "," (additionTrees typing) :=
    settled_addition given (by decide) fun expression => expression.noComma
  cases item with
  | named name typing default =>
      obtain ⟨isName, typing, default⟩ := valid
      exact Tree.settled_append (settled_name isName ",") (Tree.settled_append (annotated typing)
        (settled_addition default (by decide) fun expression => expression.noComma))
  | star mark => exact settled_mark valid (by decide)
  | collector mark name typing =>
      obtain ⟨isStar, isName, typing⟩ := valid
      exact Tree.settled_append (settled_star isStar (by decide) (by decide))
        (Tree.settled_append (settled_name isName ",") (annotated typing))
  | slash mark => exact settled_mark valid (by decide)

def SignatureItem.piece : SignatureItem → Piece
  | named name _ default => .parameter (namedParameter name default)
  | star _ => .star
  | collector _ _ none => .star
  | collector _ _ (some _) => .skipped
  | slash _ => .skipped

theorem name_word {name : Token} (isName : IsNameToken name) :
    Tree.word? (.leaf name) = some name.text := by
  simp [Tree.word?, isName.1]

theorem mark_no_word {mark : Token} {symbol : String} (isSymbol : mark.isSymbol symbol = true) :
    Tree.word? (.leaf mark) = none := by
  simp only [Token.isSymbol, Bool.and_eq_true, decide_eq_true_eq] at isSymbol
  simp [Tree.word?, isSymbol.1]

theorem addition_has_colon {addition : Addition} (valid : addition.IsValid ":") :
    addition.trees.any (Tree.isSymbol ":") = true := by
  simp [Addition.trees, Tree.isSymbol, valid.mark]

theorem target_settled {name : Token} {typing : Option Addition} (isName : IsNameToken name)
    (valid : ∀ addition ∈ typing, addition.IsValid ":") :
    Tree.Settled "=" (.leaf name :: additionTrees typing) :=
  Tree.settled_append (settled_name isName "=")
    (settled_addition valid (by decide) fun expression => expression.noEquals)

theorem piece_without_default {name : Token} {typing : Option Addition} (isName : IsNameToken name)
    (valid : ∀ addition ∈ typing, addition.IsValid ":") :
    parameterPiece (.leaf name :: additionTrees typing) = .parameter (namedParameter name none) := by
  rw [parameterPiece, Tree.cut_once_none (target_settled isName valid).1]
  cases typing with
  | none =>
      have noStar (symbol : String) : Tree.isSymbol symbol (.leaf name) = false :=
        not_symbol_of_word isName.1 symbol
      simp [bareParameter, additionTrees, noStar, name_word isName, namedParameter]
  | some addition =>
      have colon := addition_has_colon (valid addition rfl)
      simp [bareParameter, additionTrees, colon, name_word isName, namedParameter]

theorem piece_with_default {name : Token} {typing : Option Addition} {default : Addition}
    (isName : IsNameToken name) (valid : ∀ addition ∈ typing, addition.IsValid ":")
    (equals : default.IsValid "=") :
    parameterPiece (.leaf name :: (additionTrees typing ++ default.trees)) =
      .parameter (namedParameter name (some default)) := by
  have mark : Tree.isSymbol "=" (.leaf default.mark) = true := equals.mark
  have sides := Tree.cut_once_settled (target_settled isName valid) mark default.expression
  have text : nameText [.leaf name] = String.ofList name.text := by
    simp [nameText, Tree.text, Tree.allTokens, Tree.tokens, Tree.tokensText]
  have front : ((Tree.cutOnce? ":" 0 (.leaf name :: additionTrees typing)).map Prod.fst).getD
      (.leaf name :: additionTrees typing) = [.leaf name] := by
    cases typing with
    | none => rw [additionTrees, Option.map_none, Option.getD_none,
        Tree.cut_once_none (settled_name isName ":").1, Option.map_none, Option.getD_none]
    | some addition =>
        have colon : Tree.isSymbol ":" (.leaf addition.mark) = true := (valid addition rfl).mark
        have cut := Tree.cut_once_settled (settled_name isName ":") colon addition.expression
        rw [additionTrees, Option.map_some, Option.getD_some, Addition.trees]
        rw [List.singleton_append] at cut
        rw [cut, Option.map_some, Option.getD_some]
  rw [List.cons_append] at sides
  rw [parameterPiece, Addition.trees, sides]
  dsimp only
  rw [front, text, namedParameter, Option.map_some]

theorem piece_of_item {item : SignatureItem} (valid : item.IsValid) :
    parameterPiece item.trees = item.piece := by
  cases item with
  | named name typing default =>
      obtain ⟨isName, annotated, defaulted⟩ := valid
      cases default with
      | none =>
          rw [trees, additionTrees.eq_def none, Option.map_none, Option.getD_none, List.append_nil]
          exact piece_without_default isName annotated
      | some default => exact piece_with_default isName annotated (defaulted default rfl)
  | star mark =>
      rw [trees, parameterPiece, Tree.cut_once_none (settled_mark valid (by decide)).1]
      have isStar : Tree.isSymbol "*" (.leaf mark) = true := valid
      simp [bareParameter, isStar, piece]
  | collector mark name typing =>
      obtain ⟨isStar, isName, annotated⟩ := valid
      have whole : Tree.Settled "=" (.leaf mark :: .leaf name :: additionTrees typing) :=
        Tree.settled_append (settled_star isStar (by decide) (by decide)) (target_settled isName annotated)
      rw [trees, parameterPiece, Tree.cut_once_none whole.1]
      cases typing with
      | none =>
          have noColon : Tree.isSymbol ":" (.leaf name) = false := not_symbol_of_word isName.1 ":"
          have starred : (Tree.isSymbol "*" (.leaf mark) || Tree.isSymbol "**" (.leaf mark)) = true :=
            Bool.or_eq_true_iff.mpr isStar
          simp [bareParameter, additionTrees, noColon, starred, piece]
      | some addition =>
          have colon := addition_has_colon (annotated addition rfl)
          have noWord : Tree.word? (.leaf mark) = none := isStar.elim mark_no_word mark_no_word
          simp [bareParameter, additionTrees, colon, noWord, piece]
  | slash mark =>
      rw [trees, parameterPiece, Tree.cut_once_none (settled_mark valid (by decide)).1]
      have noStar : Tree.isSymbol "*" (.leaf mark) = false := not_symbol_of_other valid (by decide)
      have noStars : Tree.isSymbol "**" (.leaf mark) = false := not_symbol_of_other valid (by decide)
      simp [bareParameter, noStar, noStars, mark_no_word valid, piece]

/-! ## Signatures of items -/

/-- What is collected from items: the positional parameters and those behind a star with an annotation. -/
def collectedParameters (items : List SignatureItem) : List Parameter :=
  (items.takeWhile fun item => !item.isBareStar).filterMap parameter?

theorem positional_items {items : List SignatureItem} (valid : ∀ item ∈ items, item.IsValid) :
    positional (items.map SignatureItem.trees) = collectedParameters items := by
  induction items with
  | nil => rfl
  | cons item rest ih =>
      obtain ⟨first, later⟩ := List.forall_mem_cons.mp valid
      rw [List.map_cons, positional, piece_of_item first, ih later]
      cases item with
      | named | star | slash => rfl
      | collector mark name typing => cases typing <;> rfl

theorem positional_empty_end (pieces : List (List Tree)) :
    positional (pieces ++ [[]]) = positional pieces := by
  induction pieces with
  | nil => rfl
  | cons trees rest ih =>
      rw [List.cons_append, positional, positional, ih]

theorem cut_signature {signature : Signature} (valid : signature.IsValid) :
    Tree.cut "," signature.trees =
      signature.closed.map (fun entry => entry.1.trees) ++ [(signature.last.map SignatureItem.trees).getD []] := by
  obtain ⟨closed, last⟩ := signature
  obtain ⟨items, commas⟩ := valid
  have final : Tree.cut "," ((last.map SignatureItem.trees).getD []) =
      [(last.map SignatureItem.trees).getD []] := by
    cases last with
    | none => rfl
    | some item => exact (item_settled (items item (by simp [Signature.items]))).1
  unfold Signature.trees
  dsimp only at commas ⊢
  have settled : ∀ entry ∈ closed, Tree.Settled "," entry.1.trees := fun entry member =>
    item_settled (items entry.1 (List.mem_append_left _ (List.mem_map_of_mem member)))
  clear items
  induction closed with
  | nil => exact final
  | cons entry rest ih =>
      obtain ⟨first, later⟩ := List.forall_mem_cons.mp settled
      obtain ⟨comma, others⟩ := List.forall_mem_cons.mp commas
      have isComma : Tree.isSymbol "," (.leaf entry.2) = true := comma
      have cut := Tree.cut_settled first isComma
        (rest.flatMap (fun (item, comma) => item.trees ++ [.leaf comma]) ++
          (last.map SignatureItem.trees).getD [])
      rw [ih others later] at cut
      rw [List.flatMap_cons, List.map_cons, List.cons_append, ← cut]
      simp

theorem signature_collected {signature : Signature} (valid : signature.IsValid) {header : List Tree}
    (inside : header.findSome? roundInner? = some signature.trees) :
    Task.signature header = (collectedParameters signature.items).drop 1 := by
  rw [Task.signature, inside]
  dsimp only
  rw [cut_signature valid, ← positional_items valid.items]
  cases last : signature.last with
  | none => simp [positional_empty_end, Signature.items, last, Function.comp_def]
  | some item => simp [Signature.items, last, Function.comp_def]

theorem collected_eq (items : List SignatureItem) :
    collectedParameters items = positionalPart items ++ behindAnnotatedStar items := by
  induction items with
  | nil => rfl
  | cons item rest ih =>
      cases item with
      | named name typing default => exact congrArg (namedParameter name default :: ·) ih
      | slash => exact ih
      | star => rfl
      | collector mark name typing => cases typing <;> rfl

/-! ## Annotations -/

theorem collected_bare (items : List SignatureItem) :
    collectedParameters (items.map SignatureItem.bare) = positionalPart items := by
  induction items with
  | nil => rfl
  | cons item rest ih =>
      cases item with
      | named name typing default => exact congrArg (namedParameter name default :: ·) ih
      | slash => exact ih
      | star | collector => rfl

theorem items_bare (signature : Signature) :
    signature.bare.items = signature.items.map SignatureItem.bare := by
  cases last : signature.last <;> simp [Signature.items, Signature.bare, last, Function.comp_def]

def HasSignature (source : List Char) (signature : Signature) : Prop :=
  signature.IsValid ∧ ∃ class_ header method,
    owner? (Node.ofText source).classes = some (class_, header, method) ∧
      header.findSome? roundInner? = some signature.trees

theorem parameters_collected {source : List Char} {signature : Signature}
    (has : HasSignature source signature) :
    (ofSource source).parameters = (collectedParameters signature.items).drop 1 := by
  obtain ⟨valid, class_, header, method, owner, inside⟩ := has
  rw [← signature_collected valid inside]
  simp [ofSource, owner]

theorem drop_append_eq_iff {Item : Type} (front back : List Item) :
    (front ++ back).drop 1 = front.drop 1 ↔ back = [] ∨ front = [] ∧ back.length = 1 := by
  cases front with
  | nil =>
      cases back with
      | nil => simp
      | cons first rest => simp
  | cons first rest => simp

/-- The parameters of a method are those in front of the first star and, if a star with an annotation comes
before the first one without, those between the two; the first of all of them is left out. So nothing behind
a star is collected exactly if no parameter stands there, or the only one stands in for the object itself.
Without its annotations the signature gives the parameters in front of the first star. -/
theorem parameters_of_signature {source : List Char} {signature : Signature}
    (has : HasSignature source signature) :
    (ofSource source).parameters =
        (positionalPart signature.items ++ behindAnnotatedStar signature.items).drop 1 ∧
      ((ofSource source).parameters = (positionalPart signature.items).drop 1 ↔
        behindAnnotatedStar signature.items = [] ∨
          positionalPart signature.items = [] ∧ (behindAnnotatedStar signature.items).length = 1) ∧
      ∀ plain, HasSignature plain signature.bare →
        (ofSource plain).parameters = (positionalPart signature.items).drop 1 := by
  have collected := parameters_collected has
  rw [collected_eq] at collected
  refine ⟨collected, ?_, fun plain bare => ?_⟩
  · rw [collected, drop_append_eq_iff]
  · rw [parameters_collected bare, items_bare, collected_bare]

def annotatedSource : String := "class T:\n def __call__(s,a: int=1,*r: int,b=2):\n  pass\n"

def plainSource : String := "class T:\n def __call__(s,a=1,*r,b=2):\n  pass\n"

def annotatedSignature : Signature :=
  let word (text : String) : Token := ⟨[], false, .word, text.toList⟩
  let symbol (text : String) : Token := ⟨[], false, .symbol, text.toList⟩
  let digit (text : String) : Addition := ⟨symbol "=", [.leaf ⟨[], false, .integer, text.toList⟩]⟩
  let type : Addition := ⟨symbol ":", [.leaf ⟨[' '], false, .word, "int".toList⟩]⟩
  ⟨[(.named (word "s") none none, symbol ","), (.named (word "a") (some type) (some (digit "1")), symbol ","),
    (.collector (symbol "*") (word "r") (some type), symbol ",")], some (.named (word "b") none (some (digit "2")))⟩

theorem has_signature_of_read {source : List Char} {signature : Signature} (valid : signature.IsValid)
    (read : ((owner? (Node.ofText source).classes).bind fun owner => owner.2.1.findSome? roundInner?) =
      some signature.trees) : HasSignature source signature := by
  obtain ⟨⟨class_, header, method⟩, owner, inside⟩ := Option.bind_eq_some_iff.mp read
  exact ⟨valid, class_, header, method, owner, inside⟩

theorem parameters_of_annotated_star :
    (ofSource annotatedSource.toList).parameters = [⟨"a", some "1"⟩, ⟨"b", some "2"⟩] ∧
      (ofSource annotatedSource.toList).parameters ≠ (positionalPart annotatedSignature.items).drop 1 ∧
      (ofSource plainSource.toList).parameters = [⟨"a", some "1"⟩] := by
  have annotated : HasSignature annotatedSource.toList annotatedSignature :=
    has_signature_of_read (by decide +kernel) (by decide +kernel)
  have plain : HasSignature plainSource.toList annotatedSignature.bare :=
    has_signature_of_read (by decide +kernel) (by decide +kernel)
  obtain ⟨collected, same, bare⟩ := parameters_of_signature annotated
  refine ⟨collected.trans (by decide +kernel), fun equal => ?_, (bare _ plain).trans (by decide +kernel)⟩
  exact absurd (same.mp equal) (by decide +kernel)

end Task

end TaskCab
