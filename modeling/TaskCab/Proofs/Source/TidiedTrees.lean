import TaskCab.Proofs.Source.Bracketing
import TaskCab.Proofs.Source.PlainParts
import TaskCab.Proofs.Source.TidiedTokens

/-!
# Trees of tidied tokens

The tokens that compaction leaves of bracketed trees are those of bracketed trees again, with the same
values inside, where a comma is dropped only behind an item.
-/

namespace TaskCab.Source

open TaskCab.Source.Compact

theorem eq_of_lexeme {token other : Token} (same : token.lexeme = other.lexeme) :
    token.kind = other.kind ∧ token.text = other.text :=
  ⟨congrArg Lexeme.kind same, congrArg Lexeme.text same⟩

namespace Tree

theorem is_symbol_of_lexeme {token other : Token} (same : token.lexeme = other.lexeme)
    (symbol : String) : token.isSymbol symbol = other.isSymbol symbol := by
  obtain ⟨kind, text⟩ := eq_of_lexeme same
  rw [Token.isSymbol, Token.isSymbol, kind, text]

theorem opened_of_lexeme {token other : Token} (same : token.lexeme = other.lexeme) :
    Bracket.opened? token = Bracket.opened? other := by
  simp only [Bracket.opened?, is_symbol_of_lexeme same]

theorem closed_of_lexeme {token other : Token} (same : token.lexeme = other.lexeme) :
    Bracket.closed? token = Bracket.closed? other := by
  simp only [Bracket.closed?, is_symbol_of_lexeme same]

theorem text_of_symbol {token : Token} {symbol : String} (symbolic : token.isSymbol symbol = true) :
    token.lexeme = ⟨.symbol, symbol.toList⟩ := by
  obtain ⟨kind, text⟩ : token.kind = .symbol ∧ token.text = symbol.toList := by
    simpa [Token.isSymbol] using symbolic
  rw [Token.lexeme, kind, text]

def openingLexeme : Bracket → Lexeme
  | .round => ⟨.symbol, ['(']⟩
  | .square => ⟨.symbol, ['[']⟩
  | .curly => ⟨.symbol, ['\x7b']⟩

def closingLexeme : Bracket → Lexeme
  | .round => ⟨.symbol, [')']⟩
  | .square => ⟨.symbol, [']']⟩
  | .curly => ⟨.symbol, ['\x7d']⟩

theorem lexeme_of_opened {token : Token} {bracket : Bracket}
    (opened : Bracket.opened? token = some bracket) : token.lexeme = openingLexeme bracket := by
  unfold Bracket.opened? at opened
  split at opened
  next isRound =>
    obtain rfl := Option.some.inj opened
    exact text_of_symbol isRound
  split at opened
  next isSquare =>
    obtain rfl := Option.some.inj opened
    exact text_of_symbol isSquare
  split at opened
  next isCurly =>
    obtain rfl := Option.some.inj opened
    exact text_of_symbol isCurly
  next => simp at opened

theorem lexeme_of_closed {token : Token} {bracket : Bracket}
    (closed : Bracket.closed? token = some bracket) : token.lexeme = closingLexeme bracket := by
  unfold Bracket.closed? at closed
  split at closed
  next isRound =>
    obtain rfl := Option.some.inj closed
    exact text_of_symbol isRound
  split at closed
  next isSquare =>
    obtain rfl := Option.some.inj closed
    exact text_of_symbol isSquare
  split at closed
  next isCurly =>
    obtain rfl := Option.some.inj closed
    exact text_of_symbol isCurly
  next => simp at closed

theorem no_comma_of_bracket {token : Token} {bracket : Bracket}
    (isBracket : Bracket.opened? token = some bracket ∨ Bracket.closed? token = some bracket) :
    token.lexeme ≠ commaLexeme := by
  rcases isBracket with opened | closed
  · rw [lexeme_of_opened opened]
    cases bracket <;> simp [openingLexeme, commaLexeme]
  · rw [lexeme_of_closed closed]
    cases bracket <;> simp [closingLexeme, commaLexeme]

/-- A closing bracket that drops a comma is a square or a curly one. -/
theorem closed_of_role {token : Token} (closes : role token.lexeme = .closing) :
    ∃ bracket, Bracket.closed? token = some bracket := by
  have symbol : token.lexeme.kind = .symbol :=
    kind_of_role.2.2 (by simp [closes]) (by simp [closes]) (by simp [closes])
  rcases symbol_cases symbol with ⟨-, texts⟩ | ⟨other, -⟩ | ⟨other, -⟩ | ⟨other, -⟩ | ⟨other, -⟩ | other
  case inl =>
    obtain ⟨gap, joined, kind, text⟩ := token
    obtain rfl : kind = .symbol := symbol
    rcases texts with same | same
    · obtain rfl : text = [']'] := same
      exact ⟨.square, rfl⟩
    · obtain rfl : text = ['\x7d'] := same
      exact ⟨.curly, rfl⟩
  all_goals simp [other] at closes

theorem not_closing_first {trees : List Tree} (balanced : AllBalanced trees) {token : Token}
    (isFirst : token ∈ (allTokens trees).head?) : role token.lexeme ≠ .closing := by
  intro closes
  cases trees with
  | nil => simp [allTokens] at isFirst
  | cons tree rest =>
      cases tree with
      | leaf single =>
          obtain rfl : single = token := by simpa [allTokens, tokens] using isFirst
          obtain ⟨bracket, closed⟩ := closed_of_role closes
          rw [balanced.1.2] at closed
          simp at closed
      | group bracket opening inner closing =>
          obtain rfl : opening = token := by simpa [allTokens, tokens] using isFirst
          rw [lexeme_of_opened balanced.1.1] at closes
          cases bracket <;> simp [openingLexeme, role] at closes

/-- Whether a comma at the end of some trees has something other than a comma in front of it. -/
def endsFilled (trees : List Tree) : Bool :=
  match trees.reverse with
  | [] => true
  | last :: before => !isSymbol "," last || before.head?.any fun tree => !isSymbol "," tree

mutual

/-- Whether commas at the end of square and curly brackets come behind an item. Curly brackets may also
hold nothing but a comma. -/
def filled : Tree → Bool
  | leaf _ => true
  | group .round _ inner _ => allFilled inner
  | group .square _ inner _ => endsFilled inner && allFilled inner
  | group .curly _ inner _ => (inner.length = 1 || endsFilled inner) && allFilled inner

def allFilled : List Tree → Bool
  | [] => true
  | tree :: rest => filled tree && allFilled rest

end

end Tree

namespace Literal

open TaskCab.Source.Tree TaskCab.Source.Literal.Part

/-- Whether trees have the same parts, but for a comma at their end where one may be dropped. -/
def SameParts (drops : Bool) (trees others : List Tree) : Prop :=
  (parts trees).map plain = (parts others).map plain ∨
    drops = true ∧ ∃ comma, Part.isSymbol "," comma = true ∧ comma.joined = false ∧
      (parts trees).map plain = (parts others).map plain ++ [comma]

/-- Whether tokens of the given kinds and texts are those of trees with the same parts. -/
def Restores (drops : Bool) (trees : List Tree) (lexemes : List Lexeme) : Prop :=
  ∀ tokens : List Token, tokens.map Token.lexeme = lexemes →
    (∀ token ∈ tokens, token.joined = false) →
      ∃ others, allTokens others = tokens ∧ AllBalanced others ∧ SameParts drops trees others

theorem restores_nil (drops : Bool) : Restores drops [] [] := by
  intro tokens same unjoined
  obtain rfl := List.map_eq_nil_iff.mp same
  exact ⟨[], rfl, trivial, .inl rfl⟩

theorem restores_comma {token : Token} (isComma : token.lexeme = commaLexeme) :
    Restores true [.leaf token] [] := by
  intro tokens same unjoined
  obtain rfl := List.map_eq_nil_iff.mp same
  refine ⟨[], rfl, trivial, .inr ⟨rfl, (Part.token token).plain, ?_, rfl, rfl⟩⟩
  rw [is_symbol_plain]
  exact is_symbol_of_lexeme (@Eq.trans _ _ _ (Token.lexeme ⟨[], false, .symbol, [',']⟩) isComma rfl) ","

theorem same_parts_cons {drops : Bool} {tree other : Tree} {trees others : List Tree}
    (first : (part tree).plain = (part other).plain) (rest : SameParts drops trees others) :
    SameParts drops (tree :: trees) (other :: others) := by
  rcases rest with same | ⟨dropped, comma, isComma, unjoined, same⟩
  · exact .inl (by simp [parts, first, same])
  · exact .inr ⟨dropped, comma, isComma, unjoined, by simp [parts, first, same]⟩

theorem restores_leaf {drops : Bool} {token : Token} (balanced : Tree.Balanced (.leaf token))
    {rest : List Tree} {lexemes : List Lexeme} (restores : Restores drops rest lexemes) :
    Restores drops (.leaf token :: rest) (token.lexeme :: lexemes) := by
  intro tokens same unjoined
  obtain ⟨first, tokens, rfl, isFirst, isRest⟩ := List.map_eq_cons_iff.mp same
  obtain ⟨others, read, balancedOthers, sameParts⟩ := restores tokens isRest fun other member =>
    unjoined other (.tail _ member)
  refine ⟨.leaf first :: others, ?_, ⟨?_, balancedOthers⟩, same_parts_cons ?_ sameParts⟩
  · rw [allTokens, read]
    rfl
  · rw [Tree.Balanced, opened_of_lexeme isFirst, closed_of_lexeme isFirst]
    exact balanced
  · obtain ⟨kind, text⟩ := eq_of_lexeme isFirst
    simp [part, plain, kind, text]

theorem joined_part (tree : Tree) :
    ∃ token rest, tokens tree = token :: rest ∧ (part tree).joined = token.joined := by
  cases tree with
  | leaf token => exact ⟨token, [], rfl, rfl⟩
  | group bracket opening inner closing =>
      refine ⟨opening, allTokens inner ++ [closing], rfl, ?_⟩
      cases bracket <;> rfl

theorem unjoined_parts {trees : List Tree}
    (unjoinedAll : ∀ token ∈ allTokens trees, token.joined = false) : AllUnjoined (parts trees) := by
  induction trees with
  | nil => simp [parts, AllUnjoined]
  | cons tree rest ih =>
      rw [allTokens] at unjoinedAll
      obtain ⟨token, more, isFirst, joined⟩ := joined_part tree
      refine List.forall_mem_cons.mpr ⟨?_, ih fun other member =>
        unjoinedAll other (List.mem_append_right _ member)⟩
      rw [joined]
      exact unjoinedAll token (List.mem_append_left _ (isFirst ▸ .head _))

theorem filled_of_same {inner others : List Tree} {comma : Part} (filledInner : endsFilled inner = true)
    (isComma : Part.isSymbol "," comma = true)
    (same : (parts inner).map plain = (parts others).map plain ++ [comma]) :
    EndsFilled ((parts others).map plain) := by
  have reversed := congrArg List.reverse same
  rw [parts_eq_map, ← List.map_reverse, ← List.map_reverse, List.reverse_append,
    List.reverse_singleton, List.singleton_append] at reversed
  cases back : inner.reverse with
  | nil => simp [back] at reversed
  | cons last before =>
      rw [back, List.map_cons, List.map_cons] at reversed
      obtain ⟨rfl, rest⟩ := List.cons.inj reversed
      rw [is_symbol_plain, is_symbol_part] at isComma
      simp only [endsFilled, back, isComma] at filledInner
      cases before with
      | nil => simp at filledInner
      | cons tree before =>
          have noComma : Tree.isSymbol "," tree = false := by simpa using filledInner
          refine ⟨(part tree).plain, ?_, ?_⟩
          · rw [List.getLast?_eq_head?_reverse, ← rest]
            rfl
          · rw [is_symbol_plain, is_symbol_part, noComma]

variable {drops : Bool} {inner others : List Tree}

theorem items_same (same : SameParts drops inner others) (unjoinedInner : AllUnjoined (parts inner))
    (unjoinedOthers : AllUnjoined (parts others)) (filledInner : drops = true → endsFilled inner = true) :
    items? (parts inner) = items? (parts others) := by
  rw [← items_plain unjoinedInner, ← items_plain unjoinedOthers]
  rcases same with same | ⟨dropped, comma, isComma, unjoinedAll, same⟩
  · rw [same]
  · have all : AllUnjoined ((parts others).map plain ++ [comma]) := same ▸ all_unjoined_plain _
    rw [same, items_comma (filled_of_same (filledInner dropped) isComma same) isComma all]

theorem of_curly_same (same : SameParts drops inner others) (unjoinedInner : AllUnjoined (parts inner))
    (unjoinedOthers : AllUnjoined (parts others))
    (filledInner : inner.length = 1 ∨ endsFilled inner = true) :
    ofCurly (parts inner) = ofCurly (parts others) := by
  rw [← of_curly_plain unjoinedInner, ← of_curly_plain unjoinedOthers]
  rcases same with same | ⟨dropped, comma, isComma, unjoinedAll, same⟩
  · rw [same]
  · have all : AllUnjoined ((parts others).map plain ++ [comma]) := same ▸ all_unjoined_plain _
    rcases filledInner with single | filledInner
    · have length := congrArg List.length same
      simp only [parts_eq_map, List.length_map, List.length_append, List.length_singleton, single]
        at length
      obtain rfl : others = [] := List.length_eq_zero_iff.mp (by omega)
      rw [same]
      exact of_curly_only_comma isComma unjoinedAll
    · rw [same, of_curly_comma (filled_of_same filledInner isComma same) isComma all]

theorem has_comma_same (same : SameParts false inner others) :
    hasComma (parts inner) = hasComma (parts others) := by
  have plainComma (parts : List Part) : hasComma (parts.map plain) = hasComma parts := by
    simp [hasComma, Function.comp_def]
  rcases same with same | ⟨dropped, -⟩
  · rw [← plainComma, same, plainComma]
  · simp at dropped

/-- Brackets have the same value around the same parts. -/
theorem group_same {bracket : Bracket} {opening closing first last : Token}
    (same : SameParts (bracket ≠ .round) inner others)
    (unjoinedInner : ∀ token ∈ allTokens inner, token.joined = false)
    (unjoinedOthers : ∀ token ∈ allTokens others, token.joined = false)
    (filledInner : filled (.group bracket opening inner closing) = true)
    (unjoinedClosing : closing.joined = false) (unjoinedLast : last.joined = false) :
    (part (.group bracket opening inner closing)).plain =
      (part (.group bracket first others last)).plain := by
  have partsInner := unjoined_parts unjoinedInner
  have partsOthers := unjoined_parts unjoinedOthers
  cases bracket with
  | round =>
      have items := items_same same partsInner partsOthers (by simp)
      have comma := has_comma_same same
      simp only [part, plain, closed, unjoinedClosing, unjoinedLast, items, comma]
  | square =>
      have items := items_same same partsInner partsOthers fun _ => by
        simp only [filled, Bool.and_eq_true] at filledInner
        exact filledInner.1
      simp only [part, plain, closed, unjoinedClosing, unjoinedLast, items]
  | curly =>
      have held := of_curly_same same partsInner partsOthers (by
        simp only [filled, Bool.and_eq_true, Bool.or_eq_true, decide_eq_true_eq] at filledInner
        exact filledInner.1)
      simp only [part, plain, closed, unjoinedClosing, unjoinedLast, held]

theorem restores_group {bracket : Bracket} {opening closing : Token} {rest : List Tree}
    {within lexemes : List Lexeme} (balanced : Tree.Balanced (.group bracket opening inner closing))
    (filledInner : filled (.group bracket opening inner closing) = true)
    (unjoinedInner : ∀ token ∈ allTokens inner ++ [closing], token.joined = false)
    (restoresInner : Restores (bracket ≠ .round) inner within)
    (restores : Restores drops rest lexemes) :
    Restores drops (.group bracket opening inner closing :: rest)
      (opening.lexeme :: (within ++ closing.lexeme :: lexemes)) := by
  intro tokens same unjoinedAll
  obtain ⟨first, tokens, rfl, isFirst, same⟩ := List.map_eq_cons_iff.mp same
  obtain ⟨middle, tokens, rfl, isMiddle, same⟩ := List.map_eq_append_iff.mp same
  obtain ⟨last, tokens, rfl, isLast, isRest⟩ := List.map_eq_cons_iff.mp same
  simp only [List.forall_mem_cons, List.forall_mem_append] at unjoinedAll unjoinedInner
  obtain ⟨-, unjoinedMiddle, unjoinedLast, unjoinedRest⟩ := unjoinedAll
  obtain ⟨inside, readInside, balancedInside, sameInside⟩ := restoresInner middle isMiddle unjoinedMiddle
  obtain ⟨others, read, balancedOthers, sameParts⟩ := restores tokens isRest unjoinedRest
  obtain ⟨opened, notOpened, closed, -⟩ := balanced
  refine ⟨.group bracket first inside last :: others, ?_, ⟨?_, balancedOthers⟩,
    same_parts_cons ?_ sameParts⟩
  · simp [allTokens, Tree.tokens, readInside, read]
  · refine ⟨?_, ?_, ?_, balancedInside⟩
    · rw [opened_of_lexeme isFirst, opened]
    · rw [opened_of_lexeme isLast, notOpened]
    · rw [closed_of_lexeme isLast, closed]
  · exact group_same sameInside unjoinedInner.1 (readInside ▸ unjoinedMiddle) filledInner
      (unjoinedInner.2.1) unjoinedLast

theorem tidied_cons {lexeme : Lexeme} {left right : List Lexeme}
    (tidied : Tidied (lexeme :: left) right) :
    (∃ rest, right = lexeme :: rest ∧ Tidied left rest) ∨
      lexeme = commaLexeme ∧ Tidied left right ∧ ∃ closer ∈ left.head?, role closer = .closing := by
  cases tidied with
  | keep rest => exact .inl ⟨_, rfl, rest⟩
  | drop closes rest => exact .inr ⟨rfl, rest, _, rfl, closes⟩

/-- What is left of the tokens of trees restores trees with the same parts. -/
theorem restored {trees : List Tree} (balanced : AllBalanced trees)
    (filledInner : allFilled trees = true)
    (unjoinedAll : ∀ token ∈ (allTokens trees).tail, token.joined = false) {drops : Bool}
    {more right : List Lexeme} (closes : ∀ lexeme ∈ more.head?, role lexeme = .closing → drops = true)
    (tidied : Tidied ((allTokens trees).map Token.lexeme ++ more) right) :
    ∃ front rest, right = front ++ rest ∧ Tidied more rest ∧ Restores drops trees front := by
  match trees with
  | [] => exact ⟨[], right, rfl, tidied, restores_nil drops⟩
  | .leaf single :: others =>
      have unjoinedOthers : ∀ token ∈ (allTokens others).tail, token.joined = false :=
        fun other member => unjoinedAll other (List.mem_of_mem_tail member)
      rcases tidied_cons tidied with ⟨rest, rfl, later⟩ | ⟨isComma, later, closer, isNext, closing⟩
      · obtain ⟨front, rest, rfl, tidiedMore, restores⟩ :=
          restored balanced.2 filledInner unjoinedOthers closes later
        exact ⟨single.lexeme :: front, rest, rfl, tidiedMore, restores_leaf balanced.1 restores⟩
      · -- No tree starts with a closing bracket, so that the comma is the last token.
        cases others with
        | nil =>
            obtain rfl := closes closer isNext closing
            exact ⟨[], right, rfl, later, restores_comma isComma⟩
        | cons tree others =>
            obtain ⟨first, tail, isFirst, -⟩ := joined_part tree
            obtain rfl : first.lexeme = closer := by simpa [allTokens, isFirst] using isNext
            exact absurd closing (not_closing_first balanced.2 (by simp [allTokens, isFirst]))
  | .group bracket opening inner closing :: others =>
      have unjoinedInner : ∀ token ∈ allTokens inner ++ [closing], token.joined = false :=
        fun token member => unjoinedAll token (by
          have inside : token ∈ allTokens inner ++ [closing] ++ allTokens others :=
            List.mem_append_left _ member
          simpa [allTokens, Tree.tokens] using inside)
      have unjoinedOthers : ∀ token ∈ (allTokens others).tail, token.joined = false :=
        fun token member => unjoinedAll token (by
          simp [allTokens, Tree.tokens, List.mem_of_mem_tail member])
      have whole : Tidied (opening.lexeme :: ((allTokens inner).map Token.lexeme ++
          closing.lexeme :: ((allTokens others).map Token.lexeme ++ more))) right := by
        simpa [allTokens, Tree.tokens] using tidied
      obtain ⟨⟨opened, notOpened, closed, within⟩, later⟩ := balanced
      have filledBoth := Bool.and_eq_true_iff.mp filledInner
      have filledInner : allFilled inner = true := by
        have both := filledBoth.1
        cases bracket with
        | round => exact both
        | square | curly => exact (Bool.and_eq_true_iff.mp both).2
      have dropsComma (tail : List Lexeme) : ∀ lexeme ∈ (closing.lexeme :: tail).head?,
          role lexeme = .closing → decide (bracket ≠ .round) = true := by
        intro lexeme isNext isClosing
        obtain rfl : closing.lexeme = lexeme := by simpa using isNext
        rw [lexeme_of_closed closed] at isClosing
        cases bracket <;> simp [closingLexeme, role] at isClosing ⊢
      obtain ⟨inside, rfl, tidiedInside⟩ := (tidied_cons whole).resolve_right fun dropped =>
        no_comma_of_bracket (.inl opened) dropped.1
      obtain ⟨front, ending, rfl, tidiedEnding, restoresInner⟩ :=
        restored within filledInner (fun token member => unjoinedInner token
          (List.mem_append_left _ (List.mem_of_mem_tail member))) (dropsComma _) tidiedInside
      obtain ⟨after, rfl, tidiedAfter⟩ := (tidied_cons tidiedEnding).resolve_right fun dropped =>
        no_comma_of_bracket (.inr closed) dropped.1
      obtain ⟨behind, rest, rfl, tidiedMore, restores⟩ :=
        restored later filledBoth.2 unjoinedOthers closes tidiedAfter
      refine ⟨opening.lexeme :: (front ++ closing.lexeme :: behind), rest, by simp, tidiedMore, ?_⟩
      exact restores_group ⟨opened, notOpened, closed, within⟩ filledBoth.1 unjoinedInner
        restoresInner restores
termination_by sizeOf trees

theorem not_unread_of_symbol {single : Token} (symbol : single.kind = .symbol) :
    unread (.token single) = false := by
  simp [unread, symbol, Token.isWord]

theorem group_unread {bracket : Bracket} {opening closing : Token}
    (someUnread : ∃ part ∈ parts inner, part.unread = true) :
    (part (.group bracket opening inner closing)).unread = true := by
  have items := items_unread someUnread
  have held := of_curly_unread someUnread
  have noItems {Held : Type} : closed closing (none : Option Held) = none := ite_self _
  cases bracket <;> simp [part, unread, items, held, noItems]

/-- Trees with a token that stands for no value have a part that stands for none. -/
theorem parts_unread {trees : List Tree} (balanced : AllBalanced trees)
    (someUnread : ∃ token ∈ allTokens trees, unread (.token token) = true) :
    ∃ part ∈ parts trees, part.unread = true := by
  match trees with
  | [] => simp [allTokens] at someUnread
  | .leaf single :: others =>
      obtain ⟨token, member, isUnread⟩ := someUnread
      rcases List.mem_cons.mp member with rfl | later
      · exact ⟨.token token, .head _, isUnread⟩
      · obtain ⟨part, inOthers, isUnread⟩ := parts_unread balanced.2 ⟨token, later, isUnread⟩
        exact ⟨part, .tail _ inOthers, isUnread⟩
  | .group bracket opening inner closing :: others =>
      obtain ⟨token, member, isUnread⟩ := someUnread
      obtain ⟨⟨opened, -, closed, within⟩, later⟩ := balanced
      have noBracket {edge : Token} (symbol : edge.kind = .symbol) : token ≠ edge := by
        rintro rfl
        simp [not_unread_of_symbol symbol] at isUnread
      have noOpening := noBracket (by
        have kind := congrArg Lexeme.kind (lexeme_of_opened opened)
        cases bracket <;> exact kind)
      have noClosing := noBracket (by
        have kind := congrArg Lexeme.kind (lexeme_of_closed closed)
        cases bracket <;> exact kind)
      simp only [allTokens, Tree.tokens, List.cons_append, List.append_assoc, List.mem_cons,
        List.mem_append, List.nil_append, noOpening, noClosing, false_or] at member
      rcases member with inside | behind
      · exact ⟨_, .head _, group_unread (parts_unread within ⟨token, inside, isUnread⟩)⟩
      · obtain ⟨part, inOthers, isUnread⟩ := parts_unread later ⟨token, behind, isUnread⟩
        exact ⟨part, .tail _ inOthers, isUnread⟩
termination_by sizeOf trees

end Literal

end TaskCab.Source
