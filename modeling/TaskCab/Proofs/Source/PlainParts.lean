import TaskCab.Proofs.Source.ReadValues

/-!
# Parts of an expression, whatever stands between them

The value of an expression depends on the kinds and the texts of its parts, unless a line is joined in
front of one. A part that stands for no value leaves none to the expression that it is in.
-/

namespace TaskCab.Source.Literal

namespace Part

/-- A part without what stands in front of it. -/
def plain : Part → Part
  | .token single => .token ⟨[], false, single.kind, single.text⟩
  | .value _ held => .value false held
  | .round _ items isTuple => .round false items isTuple

def regapped (gap : List Char → List Char) (joins : Bool → Bool) : Part → Part
  | .token single => .token ⟨gap single.gap, joins single.joined, single.kind, single.text⟩
  | .value joined held => .value (joins joined) held
  | .round joined items isTuple => .round (joins joined) items isTuple

theorem plain_eq : plain = regapped (fun _ => []) fun _ => false := by
  funext part
  cases part <;> rfl

section

variable (gap : List Char → List Char) (joins : Bool → Bool)

theorem is_symbol_regapped (symbol : String) (part : Part) :
    isSymbol symbol (part.regapped gap joins) = isSymbol symbol part := by
  cases part <;> rfl

theorem joined_regapped (part : Part) : (part.regapped gap joins).joined = joins part.joined := by
  cases part <;> rfl

end

@[simp] theorem is_symbol_plain (symbol : String) (part : Part) :
    isSymbol symbol part.plain = isSymbol symbol part := by
  cases part <;> rfl

@[simp] theorem joined_plain (part : Part) : part.plain.joined = false := by
  cases part <;> rfl

def AllUnjoined (parts : List Part) : Prop := ∀ part ∈ parts, part.joined = false

theorem all_unjoined_plain (parts : List Part) : AllUnjoined (parts.map plain) := by
  intro part member
  obtain ⟨other, -, rfl⟩ := List.mem_map.mp member
  exact joined_plain other

theorem starts_joined_of_unjoined {parts : List Part} (unjoined : AllUnjoined parts) :
    startsJoined parts = false := by
  cases parts with
  | nil => rfl
  | cons part rest => exact unjoined part (.head _)

theorem cut_ne_nil (symbol : String) (parts : List Part) : cut symbol parts ≠ [] := by
  induction parts with
  | nil => simp [cut]
  | cons part rest ih =>
      rw [cut]
      split
      · simp
      · split <;> simp

def KeepsJoined (joins : Bool → Bool) (parts : List Part) : Prop :=
  ∀ part ∈ parts, joins part.joined = part.joined

theorem keeps_joined_of_unjoined {parts : List Part} (unjoined : AllUnjoined parts) :
    KeepsJoined (fun _ => false) parts := fun part member => (unjoined part member).symm

section

variable (gap : List Char → List Char) (joins : Bool → Bool)

theorem cut_regapped (symbol : String) (parts : List Part) :
    cut symbol (parts.map (regapped gap joins)) = (cut symbol parts).map (List.map (regapped gap joins)) := by
  induction parts with
  | nil => rfl
  | cons part rest ih =>
      rw [List.map_cons, cut, cut, ih, is_symbol_regapped]
      split
      · rfl
      · cases cut symbol rest <;> rfl

theorem cut_once_regapped (symbol : String) (parts : List Part) :
    cutOnce? symbol (parts.map (regapped gap joins)) =
      (cutOnce? symbol parts).map fun sides =>
        (sides.1.map (regapped gap joins), sides.2.map (regapped gap joins)) := by
  induction parts with
  | nil => rfl
  | cons part rest ih =>
      rw [List.map_cons, cutOnce?, cutOnce?, ih, is_symbol_regapped]
      split
      · rfl
      · cases cutOnce? symbol rest <;> rfl

theorem pieces_regapped (parts : List Part) :
    pieces (parts.map (regapped gap joins)) = (pieces parts).map (List.map (regapped gap joins)) := by
  have last : (cut "," (parts.map (regapped gap joins))).getLast?.any List.isEmpty =
      (cut "," parts).getLast?.any List.isEmpty := by
    rw [cut_regapped, List.getLast?_map]
    cases (cut "," parts).getLast? <;> simp
  rw [pieces, pieces, last, cut_regapped]
  split
  · rw [List.map_dropLast]
  · rfl

variable {joins}

theorem starts_joined_regapped {parts : List Part} (keeps : KeepsJoined joins parts) :
    startsJoined (parts.map (regapped gap joins)) = startsJoined parts := by
  cases parts with
  | nil => rfl
  | cons part rest => exact (joined_regapped gap joins part).trans (keeps part (.head _))

theorem unjoined_regapped {parts : List Part} (keeps : KeepsJoined joins parts) :
    unjoined (parts.map (regapped gap joins)) = unjoined parts := by
  have fronts : (pieces (parts.map (regapped gap joins))).any startsJoined =
      (pieces parts).any startsJoined := by
    rw [pieces_regapped, List.any_map, Bool.eq_iff_iff, List.any_eq_true, List.any_eq_true]
    refine exists_congr fun piece => and_congr_right fun member => ?_
    rw [Function.comp_apply, starts_joined_regapped gap fun part within =>
      keeps part (mem_of_mem_pieces member part within)]
  have commas : ((parts.map (regapped gap joins)).any fun part => isSymbol "," part && joined part) =
      parts.any fun part => isSymbol "," part && joined part := by
    rw [List.any_map, Bool.eq_iff_iff, List.any_eq_true, List.any_eq_true]
    refine exists_congr fun part => and_congr_right fun member => ?_
    rw [Function.comp_apply, is_symbol_regapped, joined_regapped, keeps part member]
  rw [unjoined, unjoined, fronts, commas]

end

theorem unjoined_of_all {parts : List Part} (all : AllUnjoined parts) : unjoined parts = true := by
  have fronts : (pieces parts).any startsJoined = false := by
    refine List.any_eq_false.mpr fun piece member => ?_
    rw [starts_joined_of_unjoined fun part within => all part (mem_of_mem_pieces member part within)]
    simp
  have commas : (parts.any fun part => isSymbol "," part && joined part) = false := by
    refine List.any_eq_false.mpr fun part member => ?_
    simp [all part member]
  rw [unjoined, fronts, commas]
  rfl

theorem mem_cut_of_mem {symbol : String} {parts : List Part} {part : Part} (member : part ∈ parts)
    (noSymbol : isSymbol symbol part = false) : ∃ piece ∈ cut symbol parts, part ∈ piece := by
  induction parts with
  | nil => simp at member
  | cons first rest ih =>
      rw [cut]
      rcases List.mem_cons.mp member with rfl | later
      · rw [noSymbol]
        cases found : cut symbol rest with
        | nil => exact absurd found (cut_ne_nil symbol rest)
        | cons piece pieces => exact ⟨part :: piece, .head _, .head _⟩
      · obtain ⟨piece, inCut, inPiece⟩ := ih later
        split
        · exact ⟨piece, .tail _ inCut, inPiece⟩
        · split
          next none => exact absurd none (cut_ne_nil symbol rest)
          next head pieces found =>
            rw [found] at inCut
            rcases List.mem_cons.mp inCut with rfl | others
            · exact ⟨first :: piece, .head _, .tail _ inPiece⟩
            · exact ⟨piece, .tail _ others, inPiece⟩

theorem mem_pieces_of_mem {parts : List Part} {part : Part} (member : part ∈ parts)
    (noComma : isSymbol "," part = false) : ∃ piece ∈ pieces parts, part ∈ piece := by
  obtain ⟨piece, inCut, inPiece⟩ := mem_cut_of_mem member noComma
  unfold pieces
  dsimp only
  split
  next lastEmpty =>
    obtain ⟨last, isLast, empty⟩ : ∃ last ∈ (cut "," parts).getLast?, last.isEmpty = true := by
      cases isLast : (cut "," parts).getLast? with
      | none => simp [isLast] at lastEmpty
      | some last => exact ⟨last, rfl, by simpa [isLast] using lastEmpty⟩
    obtain rfl : last = [] := List.isEmpty_iff.mp empty
    rw [← List.dropLast_append_getLast? _ isLast] at inCut
    rcases List.mem_append.mp inCut with kept | dropped
    · exact ⟨piece, kept, inPiece⟩
    · obtain rfl : piece = [] := List.mem_singleton.mp dropped
      simp at inPiece
  next => exact ⟨piece, inCut, inPiece⟩

theorem mem_cut_once_of_mem {symbol : String} {parts before after : List Part} {part : Part}
    (found : cutOnce? symbol parts = some (before, after)) (member : part ∈ parts)
    (noSymbol : isSymbol symbol part = false) : part ∈ before ∨ part ∈ after := by
  induction parts generalizing before after with
  | nil => simp at member
  | cons first rest ih =>
      rw [cutOnce?] at found
      split at found
      next symbolic =>
        obtain ⟨rfl, rfl⟩ := Prod.mk.inj (Option.some.inj found)
        rcases List.mem_cons.mp member with rfl | later
        · simp [noSymbol] at symbolic
        · exact .inr later
      next =>
        obtain ⟨⟨left, right⟩, cutRest, same⟩ := Option.map_eq_some_iff.mp found
        obtain ⟨rfl, rfl⟩ := Prod.mk.inj same
        rcases List.mem_cons.mp member with rfl | later
        · exact .inl (.head _)
        · exact (ih cutRest later).imp (.tail _) id

end Part

open TaskCab.Source.Literal.Part

theorem parts_eq_map (trees : List Tree) : parts trees = trees.map part := by
  induction trees with
  | nil => rfl
  | cons tree rest ih => rw [parts, ih, List.map_cons]

theorem is_symbol_part (symbol : String) (tree : Tree) :
    Part.isSymbol symbol (part tree) = Tree.isSymbol symbol tree := by
  cases tree with
  | leaf token => simp [part, Part.isSymbol, Tree.isSymbol]
  | group bracket => cases bracket <;> simp [part, Part.isSymbol, Tree.isSymbol]

/-! ### Values of plain parts -/

section

variable (gap : List Char → List Char) {joins : Bool → Bool}

theorem strings_regapped {parts : List Part} (keeps : KeepsJoined joins parts.tail) :
    strings? (parts.map (regapped gap joins)) = strings? parts := by
  induction parts with
  | nil => rfl
  | cons part rest ih =>
      have later := ih fun other member => keeps other (List.mem_of_mem_tail member)
      cases part with
      | token single =>
          have joined := starts_joined_regapped gap keeps
          rw [List.tail_cons] at joined
          rw [List.map_cons, regapped, strings?, strings?, later, joined]
      | value | round => rfl

end

def IsArgument (parts : List Part) : Prop :=
  ∃ joined argument isTuple, parts = [.round joined (some [argument]) isTuple]

/-- What a token makes of parts behind it that are no argument. -/
theorem item_token (single : Token) {rest : List Part} (nonempty : rest ≠ [])
    (noArgument : ¬IsArgument rest) :
    item? (.token single :: rest) =
      if single.isSymbol "-" then (item? rest).bind negate?
      else if single.isSymbol "+" then (item? rest).bind affirm?
      else (strings? (.token single :: rest)).map fun text => .str (String.ofList text) := by
  rw [item?.eq_6 single rest nonempty fun joined argument isTuple same =>
    noArgument ⟨joined, argument, isTuple, same⟩]

theorem item_bracket {part : Part} (noToken : ∀ single, part ≠ .token single) {rest : List Part}
    (nonempty : rest ≠ []) : item? (part :: rest) = none := by
  cases part with
  | token single => exact absurd rfl (noToken single)
  | value | round =>
      cases rest with
      | nil => exact absurd rfl nonempty
      | cons => rfl

section

variable (gap : List Char → List Char) {joins : Bool → Bool}

theorem argument_of_regapped {parts : List Part}
    (argument : IsArgument (parts.map (regapped gap joins))) : IsArgument parts := by
  obtain ⟨joined, argument, isTuple, same⟩ := argument
  obtain ⟨part, rfl, isRound⟩ := List.map_eq_singleton_iff.mp same
  cases part with
  | token single => simp [regapped] at isRound
  | value => simp [regapped] at isRound
  | round front items tuple =>
      obtain ⟨-, rfl, rfl⟩ := Part.round.inj isRound
      exact ⟨front, argument, tuple, rfl⟩

/-- The value of an item does not depend on what stands between its parts, unless lines are joined. -/
theorem item_regapped {parts : List Part} (keeps : KeepsJoined joins parts.tail) :
    item? (parts.map (regapped gap joins)) = item? parts := by
  induction parts with
  | nil => rfl
  | cons part rest ih =>
      have later := ih fun other member => keeps other (List.mem_of_mem_tail member)
      have strings := strings_regapped gap keeps
      by_cases nonempty : rest = []
      · obtain rfl := nonempty
        cases part with
        | token single =>
            rw [List.map_cons, List.map_nil, regapped] at strings ⊢
            simp only [item?, strings, token?]
        | value | round => rfl
      cases part with
      | value | round =>
          rw [item_bracket (by simp) nonempty]
          exact item_bracket (by simp [regapped]) (by simpa using nonempty)
      | token single =>
          by_cases argument : IsArgument rest
          · obtain ⟨joined, argument, isTuple, rfl⟩ := argument
            rfl
          · have noArgument : ¬IsArgument (rest.map (regapped gap joins)) :=
              fun same => argument (argument_of_regapped gap same)
            rw [List.map_cons, regapped] at strings ⊢
            rw [item_token single nonempty argument, item_token _ (by simpa using nonempty) noArgument,
              strings, later]
            rfl

end

theorem map_m_congr {Item Held : Type} {items : List Item} {left right : Item → Option Held}
    (same : ∀ item ∈ items, left item = right item) : items.mapM left = items.mapM right := by
  induction items with
  | nil => rfl
  | cons item rest ih =>
      rw [List.mapM_cons, List.mapM_cons, same item (.head _),
        ih fun other member => same other (.tail _ member)]

section

variable (gap : List Char → List Char) {joins : Bool → Bool}

theorem keeps_joined_tail {parts piece : List Part} (keeps : KeepsJoined joins parts)
    (within : ∀ part ∈ piece, part ∈ parts) : KeepsJoined joins piece.tail :=
  fun part member => keeps part (within part (List.mem_of_mem_tail member))

theorem items_regapped {parts : List Part} (keeps : KeepsJoined joins parts) :
    items? (parts.map (regapped gap joins)) = items? parts := by
  rw [items?, items?, unjoined_regapped gap keeps, pieces_regapped, List.mapM_map]
  exact if_congr Iff.rfl (map_m_congr fun piece member =>
    item_regapped gap (keeps_joined_tail keeps (mem_of_mem_pieces member))) rfl

theorem entry_regapped {parts : List Part} (keeps : KeepsJoined joins parts) :
    entry? (parts.map (regapped gap joins)) = entry? parts := by
  unfold entry?
  rw [cut_once_regapped]
  cases found : cutOnce? ":" parts with
  | none => rfl
  | some sides =>
      obtain ⟨before, after⟩ := sides
      have key := item_regapped gap (keeps_joined_tail keeps (mem_of_cut_once found).1)
      have value := item_regapped gap (keeps_joined_tail keeps (mem_of_cut_once found).2)
      simp only [Option.map_some, Option.bind_eq_bind, Option.bind_some, key, value]

theorem of_curly_regapped {parts : List Part} (keeps : KeepsJoined joins parts) :
    ofCurly (parts.map (regapped gap joins)) = ofCurly parts := by
  have colons (piece : List Part) :
      (piece.map (regapped gap joins)).any (isSymbol ":") = piece.any (isSymbol ":") := by
    simp [Function.comp_def, is_symbol_regapped]
  rw [ofCurly, ofCurly, unjoined_regapped gap keeps, pieces_regapped, items_regapped gap keeps]
  cases found : pieces parts with
  | nil => rfl
  | cons piece others =>
      have entries : ((piece :: others).map (List.map (regapped gap joins))).mapM entry? =
          (piece :: others).mapM entry? := by
        rw [List.mapM_map]
        exact map_m_congr fun other member => entry_regapped gap fun part within =>
          keeps part (mem_of_mem_pieces (found ▸ member) part within)
      have same := colons piece
      cases piece with
      | nil =>
          cases others with
          | nil => rfl
          | cons => rfl
      | cons part piece =>
          rw [List.map_cons, List.map_cons] at entries ⊢
          dsimp only
          rw [entries, ← List.map_cons, same]

end

theorem item_plain {parts : List Part} (unjoined : ∀ part ∈ parts.tail, part.joined = false) :
    item? (parts.map plain) = item? parts := by
  rw [plain_eq]
  exact item_regapped _ (keeps_joined_of_unjoined unjoined)

theorem items_plain {parts : List Part} (unjoined : AllUnjoined parts) :
    items? (parts.map plain) = items? parts := by
  rw [plain_eq]
  exact items_regapped _ (keeps_joined_of_unjoined unjoined)

theorem of_curly_plain {parts : List Part} (unjoined : AllUnjoined parts) :
    ofCurly (parts.map plain) = ofCurly parts := by
  rw [plain_eq]
  exact of_curly_regapped _ (keeps_joined_of_unjoined unjoined)

/-! ### Parts that stand for no value -/

namespace Part

/-- Whether a part stands for no value, and keeps any expression around it from standing for one. -/
def unread : Part → Bool
  | .token single =>
      single.kind = .stray || single.isWord "lambda" ||
        (single.kind = .string && (Quoted.text? single.text).isNone)
  | .value _ held => held.isNone
  | .round _ items _ => items.isNone

theorem no_symbol_of_unread {part : Part} (someUnread : part.unread = true) (symbol : String) :
    isSymbol symbol part = false := by
  cases part with
  | value | round => rfl
  | token single =>
      simp only [unread, Bool.or_eq_true, Bool.and_eq_true, decide_eq_true_eq, Token.isWord] at someUnread
      rcases someUnread with (stray | ⟨word, -⟩) | ⟨string, -⟩ <;> simp_all [isSymbol, Token.isSymbol]

end Part

theorem strings_token (single : Token) (rest : List Part) :
    strings? (.token single :: rest) =
      if single.kind ≠ .string || startsJoined rest then none
      else (Quoted.text? single.text).bind fun text => (strings? rest).map fun more => text ++ more := by
  rw [strings?]
  split
  · rfl
  · cases Quoted.text? single.text with
    | none => rfl
    | some text => cases strings? rest <;> rfl

theorem strings_unread {parts : List Part} (someUnread : ∃ part ∈ parts, part.unread = true) :
    strings? parts = none := by
  induction parts with
  | nil => simp at someUnread
  | cons part rest ih =>
      cases part with
      | value | round => rfl
      | token single =>
          obtain ⟨other, member, isUnread⟩ := someUnread
          rw [strings_token]
          rcases List.mem_cons.mp member with rfl | later
          · simp only [unread, Bool.or_eq_true, Bool.and_eq_true, decide_eq_true_eq, Token.isWord,
              Option.isNone_iff_eq_none] at isUnread
            rcases isUnread with (stray | ⟨word, -⟩) | ⟨-, noText⟩
            · simp [stray]
            · simp [word]
            · simp [noText]
          · simp [ih ⟨other, later, isUnread⟩]

theorem construct_lambda (value : Value) : construct? "lambda".toList value = none := by
  simp [construct?]

theorem token_unread {single : Token} (isUnread : unread (.token single) = true) :
    item? [.token single] = none := by
  have strings := @strings_unread [.token single] ⟨.token single, .head _, isUnread⟩
  rw [item?, strings]
  simp only [unread, Bool.or_eq_true, Bool.and_eq_true, decide_eq_true_eq, Token.isWord] at isUnread
  rcases isUnread with (stray | ⟨word, text⟩) | ⟨string, -⟩
  · simp [stray, token?]
  · simp [word, text, token?]
  · simp [string]

theorem call_unread {single : Token} (isUnread : unread (.token single) = true) (joined : Bool)
    (argument : Value) (isTuple : Bool) :
    item? [.token single, .round joined (some [argument]) isTuple] = none := by
  have noSymbol := no_symbol_of_unread isUnread
  simp only [isSymbol] at noSymbol
  rw [item?, noSymbol, noSymbol]
  simp only [unread, Bool.or_eq_true, Bool.and_eq_true, decide_eq_true_eq, Token.isWord] at isUnread
  rcases isUnread with (stray | ⟨word, text⟩) | ⟨string, -⟩
  · simp [stray]
  · rw [if_pos word, text, construct_lambda]
    simp
  · simp [string]

/-- An expression with a part that stands for no value stands for none. -/
theorem item_unread {parts : List Part} (someUnread : ∃ part ∈ parts, part.unread = true) :
    item? parts = none := by
  induction parts with
  | nil => rfl
  | cons part rest ih =>
      have strings := strings_unread someUnread
      obtain ⟨other, member, isUnread⟩ := someUnread
      by_cases nonempty : rest = []
      · obtain rfl := nonempty
        obtain rfl : other = part := by simpa using member
        cases other with
        | token single => exact token_unread isUnread
        | value joined held => simpa [unread, item?] using isUnread
        | round joined items isTuple =>
            obtain rfl : items = none := by simpa [unread] using isUnread
            rfl
      cases part with
      | value | round => exact item_bracket (by simp) nonempty
      | token single =>
          by_cases argument : IsArgument rest
          · obtain ⟨joined, argument, isTuple, rfl⟩ := argument
            rcases List.mem_cons.mp member with rfl | later
            · exact call_unread isUnread joined argument isTuple
            · obtain rfl := List.mem_singleton.mp later
              simp [unread] at isUnread
          · rw [item_token single nonempty argument, strings]
            rcases List.mem_cons.mp member with rfl | later
            · have noSymbol := no_symbol_of_unread isUnread
              simp only [isSymbol] at noSymbol
              simp [noSymbol]
            · simp [ih ⟨other, later, isUnread⟩]

theorem map_m_none {Item Held : Type} {items : List Item} {reader : Item → Option Held} {item : Item}
    (member : item ∈ items) (noValue : reader item = none) : items.mapM reader = none := by
  induction items with
  | nil => simp at member
  | cons first rest ih =>
      rw [List.mapM_cons]
      rcases List.mem_cons.mp member with rfl | later
      · rw [noValue]
        rfl
      · rw [ih later]
        cases reader first <;> rfl

theorem items_unread {parts : List Part} (someUnread : ∃ part ∈ parts, part.unread = true) :
    items? parts = none := by
  obtain ⟨part, member, isUnread⟩ := someUnread
  obtain ⟨piece, inPieces, inPiece⟩ := mem_pieces_of_mem member (no_symbol_of_unread isUnread ",")
  rw [items?, map_m_none inPieces (item_unread ⟨part, inPiece, isUnread⟩), ite_self]

theorem entry_unread {parts : List Part} (someUnread : ∃ part ∈ parts, part.unread = true) :
    entry? parts = none := by
  obtain ⟨part, member, isUnread⟩ := someUnread
  unfold entry?
  cases found : cutOnce? ":" parts with
  | none => rfl
  | some sides =>
      obtain ⟨before, after⟩ := sides
      rcases mem_cut_once_of_mem found member (no_symbol_of_unread isUnread ":") with inside | inside
      · have key := item_unread ⟨part, inside, isUnread⟩
        simp only [Option.bind_eq_bind, Option.bind_some, key, Option.bind_none]
      · have value := item_unread ⟨part, inside, isUnread⟩
        simp only [Option.bind_eq_bind, Option.bind_some, value, Option.bind_none]
        cases item? before with
        | none => rfl
        | some key => cases key <;> rfl

theorem of_curly_unread {parts : List Part} (someUnread : ∃ part ∈ parts, part.unread = true) :
    ofCurly parts = none := by
  have items := items_unread someUnread
  obtain ⟨part, member, isUnread⟩ := someUnread
  obtain ⟨piece, inPieces, inPiece⟩ := mem_pieces_of_mem member (no_symbol_of_unread isUnread ",")
  have entries := map_m_none inPieces (entry_unread ⟨part, inPiece, isUnread⟩)
  unfold ofCurly
  split
  next noPieces => simp [noPieces] at inPieces
  next onlyEmpty =>
    rw [onlyEmpty] at inPieces
    obtain rfl := List.mem_singleton.mp inPieces
    simp at inPiece
  next first others _ found =>
    rw [found] at entries
    rw [entries, items]
    simp

theorem line_value_unread {parts : List Part} (someUnread : ∃ part ∈ parts, part.unread = true) :
    lineValue? parts = none := by
  obtain ⟨part, member, isUnread⟩ := someUnread
  have kept : part ∈ dropSemicolon parts := by
    unfold dropSemicolon
    split
    next last isLast =>
      split
      next semicolon =>
        rw [← List.dropLast_append_getLast? _ isLast] at member
        rcases List.mem_append.mp member with kept | dropped
        · exact kept
        · obtain rfl := List.mem_singleton.mp dropped
          simp [no_symbol_of_unread isUnread ";"] at semicolon
      next => exact member
    next => exact member
  rw [lineValue?, items_unread ⟨part, kept, isUnread⟩, item_unread ⟨part, kept, isUnread⟩]
  simp

/-! ### Commas at the end of brackets -/

def EndsFilled (parts : List Part) : Prop := ∃ last ∈ parts.getLast?, isSymbol "," last = false

theorem cut_behind (symbol : String) {parts : List Part} {part : Part}
    (symbolic : isSymbol symbol part = true) :
    cut symbol (parts ++ [part]) = cut symbol parts ++ [[]] := by
  induction parts with
  | nil => simp [cut, symbolic]
  | cons first rest ih =>
      rw [List.cons_append, cut, cut, ih]
      split
      · rfl
      · cases found : cut symbol rest with
        | nil => exact absurd found (cut_ne_nil symbol rest)
        | cons => rfl

theorem last_of_cut {symbol : String} (parts : List Part) {part : Part}
    (noSymbol : isSymbol symbol part = false) :
    ∃ piece, (cut symbol (parts ++ [part])).getLast? = some (piece ++ [part]) := by
  induction parts with
  | nil => exact ⟨[], by simp [cut, noSymbol]⟩
  | cons first rest ih =>
      obtain ⟨piece, isLast⟩ := ih
      rw [List.cons_append, cut]
      split
      · exact ⟨piece, by rw [List.getLast?_cons, isLast]; rfl⟩
      · cases found : cut symbol (rest ++ [part]) with
        | nil => exact absurd found (cut_ne_nil symbol _)
        | cons head pieces =>
            rw [found] at isLast
            cases pieces with
            | nil =>
                obtain rfl : head = piece ++ [part] := by simpa using isLast
                exact ⟨first :: piece, rfl⟩
            | cons => exact ⟨piece, by simpa using isLast⟩

theorem pieces_comma {parts : List Part} (filled : EndsFilled parts) {comma : Part}
    (isComma : isSymbol "," comma = true) : pieces (parts ++ [comma]) = pieces parts := by
  obtain ⟨last, isLast, noComma⟩ := filled
  have whole : pieces parts = cut "," parts := by
    obtain ⟨piece, lastPiece⟩ := last_of_cut parts.dropLast noComma
    rw [List.dropLast_append_getLast? _ isLast] at lastPiece
    rw [pieces, lastPiece]
    simp
  rw [whole, pieces, cut_behind "," isComma]
  simp

theorem items_comma {parts : List Part} (filled : EndsFilled parts) {comma : Part}
    (isComma : isSymbol "," comma = true) (unjoinedAll : AllUnjoined (parts ++ [comma])) :
    items? (parts ++ [comma]) = items? parts := by
  have within : AllUnjoined parts := fun part member => unjoinedAll part (List.mem_append_left _ member)
  rw [items?, items?, unjoined_of_all unjoinedAll, unjoined_of_all within, pieces_comma filled isComma]

theorem of_curly_comma {parts : List Part} (filled : EndsFilled parts) {comma : Part}
    (isComma : isSymbol "," comma = true) (unjoinedAll : AllUnjoined (parts ++ [comma])) :
    ofCurly (parts ++ [comma]) = ofCurly parts := by
  have within : AllUnjoined parts := fun part member => unjoinedAll part (List.mem_append_left _ member)
  rw [ofCurly, ofCurly, unjoined_of_all unjoinedAll, unjoined_of_all within, pieces_comma filled isComma,
    items_comma filled isComma unjoinedAll]

theorem of_curly_only_comma {comma : Part} (isComma : isSymbol "," comma = true)
    (unjoinedAll : comma.joined = false) : ofCurly [comma] = ofCurly [] := by
  have all : AllUnjoined [comma] := by simpa [AllUnjoined] using unjoinedAll
  have none : AllUnjoined [] := by simp [AllUnjoined]
  have onlyEmpty : pieces [comma] = [[]] := by simp [pieces, cut, isComma]
  rw [ofCurly, ofCurly, unjoined_of_all all, unjoined_of_all none, onlyEmpty]
  rfl

end TaskCab.Source.Literal
