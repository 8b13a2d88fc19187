import TaskCab.Proofs.Value.Pieces
import TaskCab.Proofs.Value.Scalars

/-!
# Reading literals back

The pieces that a literal is put together from have the values that they were written for, so that a
value is read back from its literal, unless it holds the least word or a float that is not finite.
-/

namespace TaskCab.Value

open TaskCab.Source Literal

theorem parts_append (left right : List Tree) : parts (left ++ right) = parts left ++ parts right := by
  induction left with
  | nil => rfl
  | cons tree rest ih => simp [parts, ih]

/-- Whether parts are one item: some part, no line joined in front of it, and nothing that separates
items or lines. -/
structure IsItem (parts : List Part) : Prop where
  nonempty : parts ≠ []
  unjoined : Part.startsJoined parts = false
  noComma : ∀ part ∈ parts, Part.isSymbol "," part = false
  noSemicolon : ∀ part ∈ parts, Part.isSymbol ";" part = false

/-- Whether a piece is one item, and what a reader of items makes of it. -/
def Piece.Means {Held : Type} (reader : List Part → Option Held) (piece : Piece)
    (meaning : Option Held) : Prop :=
  ∀ gap, IsItem (parts (piece gap)) ∧ reader (parts (piece gap)) = meaning

def commaPart : Part := .token (token .symbol [','] [])

def joinItems : List (List Part) → List Part
  | [] => []
  | item :: rest => item ++ rest.flatMap (commaPart :: ·)

theorem cut_item {item : List Part} (noComma : ∀ part ∈ item, Part.isSymbol "," part = false)
    (rest : List Part) :
    Part.cut "," (item ++ commaPart :: rest) = item :: Part.cut "," rest := by
  induction item with
  | nil => rfl
  | cons part more ih =>
      have later := ih fun other member => noComma other (.tail _ member)
      simp [Part.cut, noComma part (.head _), later]

theorem cut_last {item : List Part} (noComma : ∀ part ∈ item, Part.isSymbol "," part = false) :
    Part.cut "," item = [item] := by
  induction item with
  | nil => rfl
  | cons part more ih =>
      have later := ih fun other member => noComma other (.tail _ member)
      simp [Part.cut, noComma part (.head _), later]

theorem cut_join {item : List Part} {rest : List (List Part)}
    (areItems : ∀ other ∈ item :: rest, IsItem other) :
    Part.cut "," (joinItems (item :: rest)) = item :: rest := by
  induction rest generalizing item with
  | nil => simpa [joinItems] using cut_last (areItems item (.head _)).noComma
  | cons next rest ih =>
      have later := ih fun other member => areItems other (.tail _ member)
      have step : joinItems (item :: next :: rest) = item ++ commaPart :: joinItems (next :: rest) := by
        simp [joinItems]
      rw [step, cut_item (areItems item (.head _)).noComma, later]

/-- Items that are joined by commas are the pieces between the commas. -/
theorem pieces_join {items : List (List Part)} (areItems : ∀ item ∈ items, IsItem item) :
    Part.pieces (joinItems items) = items := by
  cases items with
  | nil => rfl
  | cons item rest =>
      rw [Part.pieces, cut_join areItems]
      have last : (item :: rest).getLast?.any List.isEmpty = false := by
        rw [List.getLast?_eq_some_getLast (by simp), Option.any_some, List.isEmpty_eq_false_iff]
        exact (areItems _ (List.getLast_mem _)).nonempty
      simp [last]

theorem comma_of_mem_join {items : List (List Part)} (areItems : ∀ item ∈ items, IsItem item)
    {part : Part} (member : part ∈ joinItems items) (isComma : Part.isSymbol "," part = true) :
    part = commaPart := by
  have within {item : List Part} (inside : item ∈ items) : part ∉ item := fun found => by
    simp [(areItems item inside).noComma part found] at isComma
  cases items with
  | nil => simp [joinItems] at member
  | cons item rest =>
      rcases List.mem_append.mp member with first | later
      · exact absurd first (within (.head _))
      · obtain ⟨other, inside, found⟩ := List.mem_flatMap.mp later
        rcases List.mem_cons.mp found with same | found
        · exact same
        · exact absurd found (within (.tail _ inside))

theorem unjoined_join {items : List (List Part)} (areItems : ∀ item ∈ items, IsItem item) :
    Part.unjoined (joinItems items) = true := by
  have noPiece : items.any Part.startsJoined = false := by
    simpa using fun item member => (areItems item member).unjoined
  have noComma : ((joinItems items).any fun part => Part.isSymbol "," part && Part.joined part) =
      false := by
    rw [List.any_eq_false]
    intro part member
    rw [Bool.and_eq_true]
    rintro ⟨isComma, joined⟩
    rw [comma_of_mem_join areItems member isComma] at joined
    exact Bool.false_ne_true joined
  rw [Part.unjoined, pieces_join areItems, noPiece, noComma]
  rfl

theorem parts_join_pieces (piece : Piece) (rest : List Piece) :
    parts (joinPieces (piece :: rest)) =
      joinItems (parts (piece []) :: rest.map fun piece => parts (piece [' '])) := by
  have tail : parts (rest.flatMap fun piece => comma :: piece [' ']) =
      rest.flatMap fun piece => commaPart :: parts (piece [' ']) := by
    induction rest with
    | nil => rfl
    | cons next rest ih =>
        rw [List.flatMap_cons, List.flatMap_cons, parts_append, ih]
        rfl
  simp [joinPieces, joinItems, parts_append, tail, List.flatMap_map]

/-- Joined pieces are joined items, which a reader makes of them what it makes of the pieces. -/
theorem join_means {Held : Type} {reader : List Part → Option Held} {pieces : List Piece}
    {meanings : List (Option Held)} (means : List.Forall₂ (Piece.Means reader) pieces meanings) :
    ∃ items, parts (joinPieces pieces) = joinItems items ∧ (∀ item ∈ items, IsItem item) ∧
      (∀ item ∈ items, ∃ piece ∈ pieces, ∃ gap, item = parts (piece gap)) ∧
        items.map reader = meanings := by
  cases means with
  | nil => exact ⟨[], rfl, by simp, by simp, rfl⟩
  | @cons piece meaning pieces meanings first rest =>
      have later : (∀ item ∈ pieces.map fun piece => parts (piece [' ']), IsItem item) ∧
          (pieces.map fun piece => parts (piece [' '])).map reader = meanings := by
        induction rest with
        | nil => simp
        | cons next rest ih =>
            exact ⟨List.forall_mem_cons.mpr ⟨(next [' ']).1, ih.1⟩,
              congrArg₂ List.cons (next [' ']).2 ih.2⟩
      refine ⟨_, parts_join_pieces piece pieces, List.forall_mem_cons.mpr ⟨(first []).1, later.1⟩,
        List.forall_mem_cons.mpr ⟨⟨piece, .head _, [], rfl⟩, fun item member => ?_⟩,
        congrArg₂ List.cons (first []).2 later.2⟩
      obtain ⟨other, inside, same⟩ := List.mem_map.mp member
      exact ⟨other, .tail _ inside, [' '], same.symm⟩

theorem map_m_eq_of_map {Item Held : Type} {reader : Item → Option Held} {items : List Item}
    {meanings : List (Option Held)} (same : items.map reader = meanings) :
    items.mapM reader = meanings.mapM id := by
  rw [← same, List.mapM_map]
  rfl

/-- The value of joined pieces in square brackets. -/
theorem items_join {pieces : List Piece} {meanings : List (Option Value)}
    (means : List.Forall₂ (Piece.Means item?) pieces meanings) :
    items? (parts (joinPieces pieces)) = meanings.mapM id := by
  obtain ⟨items, joined, areItems, -, values⟩ := join_means means
  rw [joined, items?, if_pos (unjoined_join areItems), pieces_join areItems, map_m_eq_of_map values]

theorem of_curly_join_items {items : List (List Part)} (areItems : ∀ item ∈ items, IsItem item)
    (colons : ∀ item ∈ items, item.any (Part.isSymbol ":") = true) :
    ofCurly (joinItems items) =
      (items.mapM entry?).map fun entries => .map (Entries.ofList entries) := by
  have pieces := pieces_join areItems
  have unjoined := unjoined_join areItems
  match items with
  | [] => rfl
  | [] :: rest => exact absurd rfl (areItems [] (.head _)).nonempty
  | (part :: more) :: rest =>
      have colon := colons _ (.head _)
      unfold ofCurly
      rw [pieces]
      simp [colon, unjoined]

/-- The value of joined entries in curly brackets. -/
theorem of_curly_join {pieces : List Piece} {meanings : List (Option (String × Value))}
    (means : List.Forall₂ (Piece.Means entry?) pieces meanings)
    (areEntries : ∀ piece ∈ pieces, ∃ key value, piece = entryPiece key value) :
    ofCurly (parts (joinPieces pieces)) =
      (meanings.mapM id).map fun entries => .map (Entries.ofList entries) := by
  obtain ⟨items, joined, areItems, sources, values⟩ := join_means means
  have colons : ∀ item ∈ items, item.any (Part.isSymbol ":") = true := by
    intro item member
    obtain ⟨piece, inside, gap, rfl⟩ := sources item member
    obtain ⟨key, value, rfl⟩ := areEntries piece inside
    simp [entryPiece, parts, part, Part.isSymbol, Token.isSymbol, token]
  rw [joined, of_curly_join_items areItems colons, map_m_eq_of_map values]

theorem leaf_means (kind : LexemeKind) (notSymbol : kind ≠ .symbol) (text : List Char) :
    (leafPiece kind text).Means item? (item? [.token (token kind text [])]) := by
  intro gap
  refine ⟨⟨by simp [leafPiece, parts], rfl, ?_, ?_⟩, rfl⟩ <;>
    simp [leafPiece, parts, part, Part.isSymbol, Token.isSymbol, token, notSymbol]

theorem signed_means (kind : LexemeKind) (notSymbol : kind ≠ .symbol) (text : List Char)
    (negative : Bool) :
    (signedPiece negative kind text).Means item?
      (if negative then (item? [.token (token kind text [])]).bind negate?
      else item? [.token (token kind text [])]) := by
  cases negative with
  | false => exact leaf_means kind notSymbol text
  | true =>
      intro gap
      refine ⟨⟨by simp [signedPiece, parts], rfl, ?_, ?_⟩, rfl⟩ <;>
        simp [signedPiece, parts, part, Part.isSymbol, Token.isSymbol, token, notSymbol]

theorem int_means (word : Int64) :
    (piece (.int word)).Means item? (if isReadable (.int word) then some (.int word) else none) := by
  rw [piece]
  have means := signed_means .integer (by simp) (Integer.digits word.toInt.natAbs)
    (decide (word.toInt < 0))
  convert means using 1
  have read : item? [.token (token .integer (Integer.digits word.toInt.natAbs) [])] =
      (Integer.word? word.toInt.natAbs).map .int := by
    simp [item?, token, token?, integer_digits]
  rw [read]
  by_cases readable : word = Int64.minValue
  · rw [readable, min_value_magnitude]
    rfl
  · obtain ⟨magnitude, found, value⟩ := magnitude_word readable
    rw [found]
    simp only [isReadable, bne_iff_ne, ne_eq, readable, not_false_eq_true, if_true, Option.map_some,
      decide_eq_true_eq]
    split
    next negative =>
      have back : Integer.word? (-magnitude.toInt) = some word :=
        Integer.word_of_to_int (by omega)
      simp [negate?, back]
    next positive =>
      have same : magnitude = word := Int64.toInt.inj (by omega)
      rw [same]

theorem float_means (number : Binary64) :
    (floatPiece number).Means item?
      (if isReadable (.float number) then some (.float number) else none) := by
  unfold floatPiece
  by_cases nan : number.isNaN = true
  · have unreadable : isReadable (.float number) = false := by
      simp only [isReadable, Binary64.isFinite, Binary64.isNaN, decide_eq_true_eq,
        decide_eq_false_iff_not] at nan ⊢
      omega
    rw [if_pos nan, unreadable]
    exact leaf_means .word (by simp) _
  rw [if_neg nan]
  by_cases infinite : number.isInfinite = true
  · have unreadable : isReadable (.float number) = false := by
      simp only [isReadable, Binary64.isFinite, Binary64.isInfinite, decide_eq_true_eq,
        decide_eq_false_iff_not] at infinite ⊢
      omega
    have means := signed_means .word (by simp) "inf".toList number.isNegative
    rw [if_pos infinite, unreadable]
    convert means using 1
    cases number.isNegative <;> rfl
  · have finite : number.magnitude < Binary64.infinityMagnitude := by
      simp only [Binary64.isNaN, Binary64.isInfinite, decide_eq_true_eq] at nan infinite
      omega
    have readable : isReadable (.float number) = true := by
      simpa [isReadable, Binary64.isFinite] using finite
    have spells := NumberLayout.spells_unsigned floatLayout rfl rfl finite
    have means := signed_means .float (by simp) (floatLayout.unsigned number.magnitude)
      number.isNegative
    have read : item? [.token (token .float (floatLayout.unsigned number.magnitude) [])] =
        some (.float (.ofMagnitude false number.magnitude)) := by
      simp [item?, token, token?, float_of_spells spells]
    have whole := number.of_magnitude_magnitude
    rw [if_neg infinite, readable]
    convert means using 1
    rw [read]
    cases negative : number.isNegative with
    | false => simp [negative ▸ whole]
    | true =>
        simp [negate?, Binary64.neg_of_magnitude number.magnitude_lt, negative ▸ whole]

theorem str_means (text : String) :
    (leafPiece .string (textLiteral text.toList)).Means item? (some (.str text)) := by
  have means := leaf_means .string (by simp) (textLiteral text.toList)
  convert means using 1
  simp [item?, token, strings?, Part.startsJoined, Quoted.text_text_literal]

theorem entry_means (key : String) {value : Piece} {meaning : Option Value}
    (means : value.Means item? meaning) :
    (entryPiece key value).Means entry? (meaning.map fun value => (key, value)) := by
  intro gap
  obtain ⟨isItem, read⟩ := means [' ']
  have written : parts (entryPiece key value gap) =
      .token (token .string (textLiteral key.toList) gap) :: .token (token .symbol [':'] []) ::
        parts (value [' ']) := rfl
  rw [written]
  refine ⟨⟨by simp, rfl, ?_, ?_⟩, ?_⟩
  · exact List.forall_mem_cons.mpr ⟨rfl, List.forall_mem_cons.mpr ⟨rfl, isItem.noComma⟩⟩
  · exact List.forall_mem_cons.mpr ⟨rfl, List.forall_mem_cons.mpr ⟨rfl, isItem.noSemicolon⟩⟩
  · have keyValue : item? [.token (token .string (textLiteral key.toList) gap)] =
        some (.str key) := (str_means key gap).2
    have notColon : Part.isSymbol ":" (.token (token .string (textLiteral key.toList) gap)) = false :=
      rfl
    have colon : Part.isSymbol ":" (.token (token .symbol [':'] [])) = true := rfl
    have cut : Part.cutOnce? ":" (.token (token .string (textLiteral key.toList) gap) ::
        .token (token .symbol [':'] []) :: parts (value [' '])) =
          some ([.token (token .string (textLiteral key.toList) gap)], parts (value [' '])) := by
      simp [Part.cutOnce?, notColon, colon]
    unfold entry?
    rw [cut]
    simp [keyValue, read]
    cases meaning <;> rfl

theorem square_means {pieces : List Piece} {meanings : List (Option Value)}
    (means : List.Forall₂ (Piece.Means item?) pieces meanings) :
    (groupPiece .square '[' ']' pieces).Means item? ((meanings.mapM id).map .list) := by
  intro gap
  refine ⟨⟨by simp [groupPiece, parts], rfl, by simp [groupPiece, parts, part, Part.isSymbol],
    by simp [groupPiece, parts, part, Part.isSymbol]⟩, ?_⟩
  simp [groupPiece, parts, part, item?, closed, token, items_join means]

theorem curly_means {pieces : List Piece} {meanings : List (Option (String × Value))}
    (means : List.Forall₂ (Piece.Means entry?) pieces meanings)
    (areEntries : ∀ piece ∈ pieces, ∃ key value, piece = entryPiece key value) :
    (groupPiece .curly '\x7b' '\x7d' pieces).Means item?
      ((meanings.mapM id).map fun entries => .map (Entries.ofList entries)) := by
  intro gap
  refine ⟨⟨by simp [groupPiece, parts], rfl, by simp [groupPiece, parts, part, Part.isSymbol],
    by simp [groupPiece, parts, part, Part.isSymbol]⟩, ?_⟩
  simp [groupPiece, parts, part, item?, closed, token, of_curly_join means areEntries]

/-- Whether a value can be read back: whether its scalars can. -/
def readable (value : Value) : Bool := (scalars value).all isReadable

theorem item_scalars_eq (items : List Value) : itemScalars items = items.flatMap scalars := by
  induction items with
  | nil => rfl
  | cons item rest ih => simp [itemScalars, ih]

theorem entry_scalars_eq (entries : List (String × Value)) :
    entryScalars entries = entries.flatMap fun entry => scalars entry.2 := by
  induction entries with
  | nil => rfl
  | cons entry rest ih => simp [entryScalars, ih]

theorem readable_list (items : List Value) : readable (.list items) = items.all readable := by
  rw [readable, scalars, item_scalars_eq, List.all_flatMap]
  rfl

theorem readable_map (entries : List (String × Value)) :
    readable (.map entries) = entries.all fun entry => readable entry.2 := by
  rw [readable, scalars, entry_scalars_eq, List.all_flatMap]
  rfl

theorem map_m_guard {Item : Type} (holds : Item → Bool) (items : List Item) :
    (items.map fun item => if holds item then some item else none).mapM id =
      if items.all holds then some items else none := by
  induction items with
  | nil => rfl
  | cons item rest ih =>
      rw [List.map_cons, List.mapM_cons, ih, List.all_cons]
      cases holds item <;> cases rest.all holds <;> rfl

theorem entry_pieces_are_entries (entries : List (String × Value)) :
    ∀ piece ∈ entryPieces entries, ∃ key value, piece = entryPiece key value := by
  induction entries with
  | nil => simp [entryPieces]
  | cons entry rest ih => exact List.forall_mem_cons.mpr ⟨⟨_, _, rfl⟩, ih⟩

mutual

/-- The trees of a value are read as the value if it can be read back, and otherwise as none. -/
theorem piece_means {value : Value} (distinct : Distinct value) :
    (piece value).Means item? (if readable value then some value else none) := by
  match value with
  | null => exact leaf_means .word (by simp) _
  | bool true => exact leaf_means .word (by simp) _
  | bool false => exact leaf_means .word (by simp) _
  | int word => simpa [readable, scalars] using int_means word
  | float number => simpa [readable, scalars, piece] using float_means number
  | str text => exact str_means text
  | list items =>
      have means := square_means (item_pieces_mean distinct)
      rw [map_m_guard readable, ← readable_list] at means
      cases holds : readable (.list items) <;> simpa [holds, piece] using means
  | map entries =>
      have means := curly_means (entry_pieces_mean distinct.2) (entry_pieces_are_entries entries)
      rw [map_m_guard fun entry : String × Value => readable entry.2, ← readable_map] at means
      cases holds : readable (.map entries) <;>
        simpa [holds, piece, Entries.of_list_of_distinct distinct.1] using means

theorem item_pieces_mean {items : List Value} (distinct : AllDistinct items) :
    List.Forall₂ (Piece.Means item?) (itemPieces items)
      (items.map fun item => if readable item then some item else none) := by
  match items with
  | [] => exact .nil
  | item :: rest => exact .cons (piece_means distinct.1) (item_pieces_mean distinct.2)

theorem entry_pieces_mean {entries : List (String × Value)} (distinct : EntriesDistinct entries) :
    List.Forall₂ (Piece.Means entry?) (entryPieces entries)
      (entries.map fun entry => if readable entry.2 then some entry else none) := by
  match entries with
  | [] => exact .nil
  | (key, value) :: rest =>
      have item : (piece value).Means item? (if readable value then some value else none) :=
        piece_means distinct.1
      have first := entry_means key item
      refine .cons ?_ (entry_pieces_mean distinct.2)
      cases readable : readable value <;> simpa [readable] using first

end

end TaskCab.Value
