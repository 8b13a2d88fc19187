import TaskCab.Proofs.Source.PlainParts
import TaskCab.Proofs.Source.ReturnedTexts
import TaskCab.Proofs.Source.ReturnedTrees

/-!
# Values of expressions with other line ends

An expression none of whose tokens goes on over a line end has the same value with the returns put in.
-/

namespace TaskCab

open TaskCab.Text

/-- A text with a carriage return in front of each line feed. -/
def returnedText (text : String) : String := String.ofList (withReturns text.toList)

/-- What an expression amounts to, with the returns put into a text that was kept. -/
def SourceValue.returned : SourceValue → SourceValue
  | decoded value => decoded value
  | verbatim text => verbatim (returnedText text)

namespace Source.Literal

open TaskCab.Source.Tree
open TaskCab.Source.Literal.Part (regapped KeepsJoined startsJoined is_symbol_regapped)

/-- Whether no token of an expression goes on over a line end. -/
def OneLine (trees : List Tree) : Prop := ∀ token ∈ allTokens trees, '\n' ∉ token.text

instance (trees : List Tree) : Decidable (OneLine trees) :=
  inferInstanceAs (Decidable (∀ token ∈ allTokens trees, '\n' ∉ token.text))

theorem token_returned {token : Token} (noFeed : '\n' ∉ token.text) :
    Part.token token.returned = (Part.token token).regapped withReturns id := by
  rw [Token.returned, with_returns_of_no_feed noFeed]
  rfl

theorem keeps_joined_id (parts : List Part) : KeepsJoined id parts := fun _ _ => rfl

theorem has_comma_regapped (gap : List Char → List Char) (joins : Bool → Bool) (parts : List Part) :
    hasComma (parts.map (regapped gap joins)) = hasComma parts := by
  rw [hasComma, hasComma, List.any_map]
  exact congrArg (List.any parts) (funext (is_symbol_regapped gap joins ","))

mutual

theorem part_returned (tree : Tree) (oneLine : ∀ token ∈ tokens tree, '\n' ∉ token.text) :
    part tree.returned = (part tree).regapped withReturns id := by
  match tree with
  | .leaf single => exact token_returned (oneLine single (.head _))
  | .group bracket opening inner closing =>
      have inside := parts_returned inner fun token member =>
        oneLine token (.tail _ (List.mem_append_left _ member))
      cases bracket with
      | square =>
          rw [returned, part, part, inside, items_regapped _ (keeps_joined_id _)]
          rfl
      | curly =>
          rw [returned, part, part, inside, of_curly_regapped _ (keeps_joined_id _)]
          rfl
      | round =>
          rw [returned, part, part, inside, items_regapped _ (keeps_joined_id _), has_comma_regapped]
          rfl

theorem parts_returned (trees : List Tree) (oneLine : OneLine trees) :
    parts (allReturned trees) = (parts trees).map (regapped withReturns id) := by
  match trees with
  | [] => rfl
  | tree :: rest =>
      rw [allReturned, parts, parts, List.map_cons,
        part_returned tree fun token member => oneLine token (List.mem_append_left _ member),
        parts_returned rest fun token member => oneLine token (List.mem_append_right _ member)]

end

theorem value_returned {trees : List Tree} (oneLine : OneLine trees) :
    value? (trees.map returned) = value? trees := by
  rw [value?, value?, ← all_returned_eq, parts_returned trees oneLine,
    item_regapped _ (keeps_joined_id _)]

theorem of_trees_returned {trees : List Tree} (oneLine : OneLine trees) :
    ofTrees (trees.map returned) = (ofTrees trees).returned := by
  unfold ofTrees
  rw [value_returned oneLine]
  cases value? trees with
  | some value => rfl
  | none =>
      dsimp only
      rw [text_returned, Compact.text_returned, SourceValue.returned, returnedText, String.toList_ofList]

/-! ## Adjacent literals -/

/-- Whether no literal of an expression has a backslash that carries a line feed along. -/
def Apart (trees : List Tree) : Prop :=
  ∀ token ∈ allTokens trees, token.kind = .string → Quoted.joinsLines token.text = false

instance (trees : List Tree) : Decidable (Apart trees) :=
  inferInstanceAs (Decidable (∀ token ∈ allTokens trees, _ → _))

theorem joined_returned (tree : Tree) : (part tree.returned).joined = (part tree).joined := by
  cases tree with
  | leaf => rfl
  | group bracket opening inner closing => cases bracket <;> rfl

theorem starts_joined_returned (trees : List Tree) :
    startsJoined (parts (trees.map returned)) = startsJoined (parts trees) := by
  cases trees with
  | nil => rfl
  | cons tree rest => exact joined_returned tree

theorem strings_group {bracket : Bracket} {opening closing : Token} {inner : List Tree}
    (rest : List Part) : strings? (part (.group bracket opening inner closing) :: rest) = none := by
  cases bracket <;> rfl

theorem returned_join {first other following more : Option (List Char)}
    (front : Option.Rel Returned first other) (back : Option.Rel Returned following more) :
    Option.Rel Returned (first.bind fun text => following.map fun after => text ++ after)
      (other.bind fun text => more.map fun after => text ++ after) := by
  cases front with
  | none => exact .none
  | some text =>
      cases back with
      | none => exact .none
      | some after => exact .some (returned_append text after)

/-- Adjacent literals stand for the text with returns in front of some line feeds. -/
theorem strings_returned {trees : List Tree} (apart : Apart trees) :
    Option.Rel Returned (strings? (parts trees)) (strings? (parts (trees.map returned))) := by
  induction trees with
  | nil => exact .some .nil
  | cons tree rest ih =>
      have later := ih fun token member => apart token (List.mem_append_right _ member)
      rw [List.map_cons, parts, parts]
      cases tree with
      | group bracket opening inner closing =>
          rw [returned, strings_group, strings_group]
          exact .none
      | leaf single =>
          have joined := starts_joined_returned rest
          have same : single.returned.kind = single.kind := rfl
          rw [returned, part, part, strings_token, strings_token, joined, same]
          by_cases refused : (decide (single.kind ≠ .string) || startsJoined (parts rest)) = true
          · rw [if_pos refused, if_pos refused]
            exact .none
          · rw [if_neg refused, if_neg refused]
            have isString : single.kind = .string := by
              by_contra other
              simp [other] at refused
            exact returned_join (Quoted.literal_text_returned (apart single (.head _) isString)) later

end Source.Literal

end TaskCab
