import TaskCab.Docstring.Default
import TaskCab.Proofs.Text.Joined
import TaskCab.Proofs.Text.Runs
import TaskCab.Proofs.Text.Trim
import TaskCab.Proofs.Value.NumberText
import TaskCab.Proofs.Value.SignedNumber

/-!
# Encoded defaults

The generator of docstrings writes truth values and integers bare, texts in single quotes and lists of
either behind the name of an array. Such a default is read back as the value it was written for, whatever
blanks surround it and whether or not a comma ends a list.
-/

namespace TaskCab.Docstring

open TaskCab.Text

/-! ## Arrays -/

theorem array_iff (name : String) (text inner : List Char) :
    array? name text = some inner ↔
      (∀ character ∈ inner, character ≠ ']' ∧ character ≠ '\n') ∧
        ∃ rest, text = name.toList ++ '=' :: '[' :: (inner ++ ']' :: rest) := by
  have opening (rest : List Char) :
      (name.toList ++ ['=', '[']) ++ rest = name.toList ++ '=' :: '[' :: rest := by simp
  constructor
  · intro found
    obtain ⟨rest, after, cut⟩ := Option.bind_eq_some_iff.mp found
    rw [after_start_iff, opening] at after
    dsimp only at cut
    rw [drop_take_while] at cut
    split at cut
    next closed =>
      obtain rfl := Option.some.inj cut
      refine ⟨fun c member => by simpa using List.mem_takeWhile_imp member, ?_⟩
      obtain ⟨behind, same⟩ := List.head?_eq_some_iff.mp closed
      refine ⟨behind, ?_⟩
      rw [after, ← same, List.takeWhile_append_dropWhile]
    next => simp at cut
  · rintro ⟨own, rest, rfl⟩
    have run : ∀ c ∈ inner, (c ≠ ']' && c ≠ '\n') = true := fun c member => by simpa using own c member
    have stops : Stops (fun c => c ≠ ']' && c ≠ '\n') (']' :: rest) := by simp
    refine Option.bind_eq_some_iff.mpr ⟨inner ++ ']' :: rest, ?_, ?_⟩
    · rw [after_start_iff, opening]
    · dsimp only
      rw [take_while_run run stops, List.drop_left]
      rfl

theorem array_of_other_start {name : String} {first : Char} (differs : first ∉ name.toList.head?)
    (nonempty : name.toList ≠ []) (rest : List Char) : array? name (first :: rest) = none := by
  obtain ⟨letter, letters, same⟩ := List.exists_cons_of_ne_nil nonempty
  have other : letter ≠ first := by
    rintro rfl
    simp [same] at differs
  simp [array?, same, afterStart?, other]

theorem array_of_other_name {name other : String} (differs : other.toList.head? ≠ name.toList.head?)
    (nonempty : name.toList ≠ [] ∧ other.toList ≠ []) (rest : List Char) :
    array? name (other.toList ++ rest) = none := by
  obtain ⟨first, letters, same⟩ := List.exists_cons_of_ne_nil nonempty.2
  rw [same] at differs ⊢
  exact array_of_other_start (by simpa [eq_comm] using differs) nonempty.1 _

theorem array_items_last {piece : List Char} (noComma : ∀ character ∈ piece, character ≠ ',') :
    arrayItems piece = [trim piece].filter fun item => !item.isEmpty := by
  rw [arrayItems, split_where_none fun c member => by simpa using noComma c member]
  rfl

theorem array_items_first {piece : List Char} (noComma : ∀ character ∈ piece, character ≠ ',')
    (rest : List Char) :
    arrayItems (piece ++ ',' :: rest) =
      ([trim piece].filter fun item => !item.isEmpty) ++ arrayItems rest := by
  rw [arrayItems, split_where_first (fun c member => by simpa using noComma c member) rfl, List.map_cons,
    ← List.singleton_append, List.filter_append]
  rfl

theorem no_comma_of_blank {blanks : List Char} (blank : ∀ character ∈ blanks, isBlank character = true) :
    ∀ character ∈ blanks, character ≠ ',' := by
  rintro _ member rfl
  exact absurd (blank ',' member) (by decide)

theorem array_items_blank {blanks : List Char} (blank : ∀ character ∈ blanks, isBlank character = true) :
    arrayItems blanks = [] := by
  have empty : trim blanks = [] := by
    rw [trim, trimStart, List.dropWhile_eq_nil_iff.mpr blank]
    rfl
  rw [array_items_last (no_comma_of_blank blank), empty]
  rfl

theorem filter_framed {before item after : List Char} (framed : Framed item)
    (blankBefore : ∀ character ∈ before, isBlank character = true)
    (blankAfter : ∀ character ∈ after, isBlank character = true) :
    ([trim (before ++ (item ++ after))].filter fun item => !item.isEmpty) = [item] := by
  rw [trim_between framed blankBefore blankAfter]
  obtain ⟨⟨first, atHead, -⟩, -⟩ := framed
  cases item with
  | nil => simp at atHead
  | cons character rest => rfl

/-- The items of an array are read whatever blanks stand at its ends, with or without a comma behind the
last one. -/
theorem array_items_joined {items : List (List Char)} (framed : ∀ item ∈ items, Framed item)
    (noComma : ∀ item ∈ items, ∀ character ∈ item, character ≠ ',') {opening closing : List Char}
    (blankOpening : ∀ character ∈ opening, isBlank character = true)
    (blankClosing : ∀ character ∈ closing, isBlank character = true) (comma : Bool) :
    arrayItems (opening ++ (joinWith [',', ' '] items ++ ((if comma then [','] else []) ++ closing))) =
      items := by
  have noCommaClosing := no_comma_of_blank blankClosing
  induction items generalizing opening with
  | nil =>
      have noCommaOpening := no_comma_of_blank blankOpening
      cases comma with
      | true =>
          have cut := array_items_first noCommaOpening closing
          rw [← array_items_last noCommaOpening, array_items_blank blankOpening,
            array_items_blank blankClosing] at cut
          simpa [joinWith, List.intercalate] using cut
      | false =>
          have blank := array_items_blank (List.forall_mem_append.mpr ⟨blankOpening, blankClosing⟩)
          simpa [joinWith, List.intercalate] using blank
  | cons item rest ih =>
      obtain ⟨isFramed, restFramed⟩ := List.forall_mem_cons.mp framed
      obtain ⟨itemNoComma, restNoComma⟩ := List.forall_mem_cons.mp noComma
      have piece : ∀ c ∈ opening ++ item, c ≠ ',' :=
        List.forall_mem_append.mpr ⟨no_comma_of_blank blankOpening, itemNoComma⟩
      have own : ([trim (opening ++ item)].filter fun item => !item.isEmpty) = [item] := by
        simpa using filter_framed isFramed blankOpening (List.forall_mem_nil _)
      cases rest with
      | nil =>
          cases comma with
          | true =>
              have cut := array_items_first piece closing
              rw [own, array_items_blank blankClosing] at cut
              simpa [joinWith, List.intercalate] using cut
          | false =>
              have last := array_items_last (List.forall_mem_append.mpr ⟨piece, noCommaClosing⟩)
              rw [List.append_assoc, filter_framed isFramed blankOpening blankClosing] at last
              simpa [joinWith, List.intercalate] using last
      | cons next more =>
          have space : ∀ c ∈ [' '], isBlank c = true := by decide
          have later := ih restFramed restNoComma space
          have cut := array_items_first piece ([' '] ++
            (joinWith [',', ' '] (next :: more) ++ ((if comma then [','] else []) ++ closing)))
          rw [own, later] at cut
          rw [join_with_cons_cons]
          simpa using cut

/-! ## Scalars -/

theorem strip_quotes_quoted {text : List Char} (start : text.head?.any isQuote = false)
    (ends : text.getLast?.any isQuote = false) : stripQuotes ('\'' :: text ++ ['\'']) = text := by
  have quote : isQuote '\'' = true := rfl
  cases text with
  | nil => rfl
  | cons first rest =>
      obtain ⟨front, last, same⟩ := (List.eq_nil_or_concat' (first :: rest)).resolve_left (by simp)
      rw [same, List.getLast?_concat] at ends
      have notQuote : isQuote first = false := start
      rw [stripQuotes, List.cons_append, List.dropWhile_cons_of_pos quote, List.cons_append,
        List.dropWhile_cons_of_neg (by simp [notQuote]), ← List.cons_append, same, List.reverse_append,
        List.reverse_singleton, List.singleton_append, List.dropWhile_cons_of_pos quote, List.reverse_append,
        List.reverse_singleton, List.singleton_append, List.dropWhile_cons_of_neg (by simpa using ends)]
      simp

theorem read_scalar {raw rest : List Char} {first : Char} (mark : first.toNat < 0x41)
    (trimmed : trim raw = first :: rest) :
    readDefault raw =
      (number? (first :: rest)).getD (.str (String.ofList (stripQuotes (first :: rest)))) := by
  have differs (letter : Char) (isLetter : 0x41 ≤ letter.toNat) : first ≠ letter := by
    rintro rfl
    omega
  have noArray (name : String) {letter : Char} {letters : List Char} (same : name.toList = letter :: letters)
      (isLetter : 0x41 ≤ letter.toNat) : array? name (first :: rest) = none :=
    array_of_other_start (by simpa [same] using (differs letter isLetter).symm) (by simp [same]) rest
  have empty : emptyArray? (first :: rest) = none := by
    simp [emptyArray?, differs 'n' (by decide)]
  have truth : truth? (first :: rest) = none := by
    have notSigma : first ≠ 'Σ' := differs 'Σ' (by decide)
    have ascii : first.toNat < 0x80 := by omega
    have lowered : first.toLower = first := by
      rcases to_lower_cases first with same | ⟨capital, -⟩
      · exact same
      · omega
    simp [truth?, lower, lowerAfter, notSigma, lowerChar, ascii, lowered, differs 't' (by decide),
      differs 'f' (by decide)]
  simp [readDefault, trimmed, boolArray?, stringArray?, numberArray?,
    noArray "boolArray" rfl (by decide), noArray "stringArray" rfl (by decide),
    noArray "intArray" rfl (by decide), noArray "floatArray" rfl (by decide), empty, truth]

theorem number_of_quoted (rest : List Char) : number? ('\'' :: rest) = none := rfl

/-! ## Encodings -/

/-- A value that the generator of docstrings writes as a default. -/
inductive Encodable where
  | truth (holds : Bool)
  | word (integer : Int64)
  | text (content : String)
  | truths (items : List Bool)
  | words (items : List Int64)
  | texts (items : List String)

/-- Blanks around a default and, without line feeds, inside the brackets of an array, and whether a comma
stands behind the last item. -/
structure Layout where
  before : List Char
  opening : List Char
  comma : Bool
  closing : List Char
  after : List Char
  blankAround : (∀ character ∈ before, isBlank character = true) ∧
    ∀ character ∈ after, isBlank character = true
  blankInside : (∀ character ∈ opening, isBlank character = true ∧ character ≠ '\n') ∧
    ∀ character ∈ closing, isBlank character = true ∧ character ≠ '\n'

namespace Layout

def inner (layout : Layout) (items : List (List Char)) : List Char :=
  layout.opening ++
    (joinWith [',', ' '] items ++ ((if layout.comma then [','] else []) ++ layout.closing))

def array (layout : Layout) (name : String) (items : List (List Char)) : List Char :=
  name.toList ++ '=' :: '[' :: (layout.inner items ++ [']'])

end Layout

namespace Encodable

def value : Encodable → Value
  | .truth holds => .bool holds
  | .word integer => .int integer
  | .text content => .str content
  | .truths items => .list (items.map .bool)
  | .words items => .list (items.map .int)
  | .texts items => .list (items.map .str)

/-- Whether a text has no quote at its ends, and the texts of a list hold nothing that an array does not
keep. -/
def IsPlain : Encodable → Prop
  | .text content =>
      content.toList.head?.any isQuote = false ∧ content.toList.getLast?.any isQuote = false
  | .texts items => ∀ item ∈ items, ∀ character ∈ item.toList,
      isQuote character = false ∧ character ≠ ',' ∧ character ≠ ']' ∧ character ≠ '\n'
  | _ => True

def truthText (holds : Bool) : List Char := if holds then "True".toList else "False".toList

def wordText (integer : Int64) : List Char := Integer.render integer.toInt

def quoted (content : String) : List Char := '\'' :: content.toList ++ ['\'']

def core (layout : Layout) : Encodable → List Char
  | .truth holds => truthText holds
  | .word integer => wordText integer
  | .text content => quoted content
  | .truths items => layout.array "boolArray" (items.map truthText)
  | .words items => layout.array "intArray" (items.map wordText)
  | .texts items => layout.array "stringArray" (items.map quoted)

def encoded (encodable : Encodable) (layout : Layout) : List Char :=
  layout.before ++ (encodable.core layout ++ layout.after)

end Encodable

structure IsItem (item : List Char) : Prop where
  framed : Framed item
  kept : ∀ character ∈ item, character ≠ ',' ∧ character ≠ ']' ∧ character ≠ '\n'

namespace Encodable

theorem truth_text_is_item (holds : Bool) : IsItem (truthText holds) := by
  cases holds with
  | true => exact ⟨framed_of_graphic (List.cons_ne_nil 'T' _) (by decide), by decide⟩
  | false => exact ⟨framed_of_graphic (List.cons_ne_nil 'F' _) (by decide), by decide⟩

theorem word_text_is_item (integer : Int64) : IsItem (wordText integer) := by
  have isNumber := Value.int_is_number_text integer.toInt
  refine ⟨framed_of_graphic isNumber.1 (Value.graphic_of_number_text isNumber), fun c member => ?_⟩
  have numberChar := isNumber.2 c member
  refine ⟨?_, ?_, ?_⟩ <;> rintro rfl <;> exact absurd numberChar (by decide)

theorem word_text_start (integer : Int64) :
    ∃ first rest, wordText integer = first :: rest ∧ first.toNat < 0x41 := by
  unfold wordText Integer.render
  split
  · exact ⟨'-', _, rfl, by decide⟩
  · obtain ⟨first, rest, whole⟩ := List.exists_cons_of_ne_nil (Integer.digits_ne_nil integer.toInt.natAbs)
    have isDigit : first.isDigit = true := Integer.is_digit_of_mem_digits (whole ▸ List.mem_cons_self)
    exact ⟨first, rest, whole, Nat.lt_of_le_of_lt (code_of_digit isDigit).2 (by decide)⟩

theorem quoted_framed (content : String) : Framed (quoted content) :=
  framed_between (by decide) (by decide) _

theorem quoted_is_item {content : String}
    (kept : ∀ character ∈ content.toList, character ≠ ',' ∧ character ≠ ']' ∧ character ≠ '\n') :
    IsItem (quoted content) := by
  refine ⟨quoted_framed content, List.forall_mem_append.mpr ⟨List.forall_mem_cons.mpr ⟨by decide, kept⟩, ?_⟩⟩
  decide

theorem strip_quoted {content : String} (start : content.toList.head?.any isQuote = false)
    (ends : content.toList.getLast?.any isQuote = false) :
    String.ofList (stripQuotes (quoted content)) = content := by
  rw [quoted, strip_quotes_quoted start ends, String.ofList_toList]

end Encodable

namespace Layout

variable (layout : Layout) {items : List (List Char)} (areItems : ∀ item ∈ items, IsItem item)
include areItems

theorem array_items_inner : arrayItems (layout.inner items) = items :=
  array_items_joined (fun item member => (areItems item member).framed)
    (fun item member c inItem => ((areItems item member).kept c inItem).1)
    (fun c member => (layout.blankInside.1 c member).1) (fun c member => (layout.blankInside.2 c member).1)
    layout.comma

theorem array_own (name : String) : array? name (layout.array name items) = some (layout.inner items) := by
  have blank {blanks : List Char} (inside : ∀ c ∈ blanks, isBlank c = true ∧ c ≠ '\n') :
      ∀ c ∈ blanks, c ≠ ']' ∧ c ≠ '\n' := by
    intro c member
    refine ⟨?_, (inside c member).2⟩
    rintro rfl
    exact absurd (inside ']' member).1 (by decide)
  have joined : ∀ c ∈ joinWith [',', ' '] items, c ≠ ']' ∧ c ≠ '\n' := by
    intro c member
    rcases mem_join_with member with inSeparator | ⟨item, inItems, inItem⟩
    · exact (by decide : ∀ c ∈ [',', ' '], c ≠ ']' ∧ c ≠ '\n') c inSeparator
    · exact ((areItems item inItems).kept c inItem).2
  have comma : ∀ c ∈ if layout.comma then [','] else [], c ≠ ']' ∧ c ≠ '\n' := by
    cases layout.comma <;> decide
  refine (array_iff _ _ _).mpr ⟨?_, [], rfl⟩
  exact List.forall_mem_append.mpr ⟨blank layout.blankInside.1, List.forall_mem_append.mpr ⟨joined,
    List.forall_mem_append.mpr ⟨comma, blank layout.blankInside.2⟩⟩⟩

end Layout

theorem trim_encoded {text : List Char} (framed : Framed text) (layout : Layout) :
    trim (layout.before ++ (text ++ layout.after)) = text :=
  trim_between framed layout.blankAround.1 layout.blankAround.2

theorem array_framed (layout : Layout) {name : String} {first : Char} {letters : List Char}
    (same : name.toList = first :: letters) (graphic : IsGraphic first) (items : List (List Char)) :
    Framed (layout.array name items) := by
  have whole : layout.array name items = first :: (letters ++ '=' :: '[' :: layout.inner items ++ [']']) := by
    simp [Layout.array, same]
  rw [whole]
  exact framed_between graphic (by decide) _

theorem read_truths (layout : Layout) (items : List Bool) :
    readDefault ((Encodable.truths items).encoded layout) = .list (items.map .bool) := by
  have areItems : ∀ item ∈ items.map Encodable.truthText, IsItem item :=
    List.forall_mem_map.mpr fun holds _ => Encodable.truth_text_is_item holds
  have each : (fun item => Value.bool (item = "True".toList)) ∘ Encodable.truthText = .bool := by
    funext holds
    cases holds <;> rfl
  rw [readDefault, Encodable.encoded, Encodable.core, trim_encoded (array_framed layout rfl (by decide) _)]
  simp only [boolArray?, layout.array_own areItems, Option.map_some, layout.array_items_inner areItems,
    List.map_map, each]
  rfl

theorem read_texts (layout : Layout) {items : List String} (plain : (Encodable.texts items).IsPlain) :
    readDefault ((Encodable.texts items).encoded layout) = .list (items.map .str) := by
  have areItems : ∀ item ∈ items.map Encodable.quoted, IsItem item :=
    List.forall_mem_map.mpr fun item member =>
      Encodable.quoted_is_item fun c inItem => (plain item member c inItem).2
  have noQuote {item : String} (member : item ∈ items) :
      item.toList.head?.any isQuote = false ∧ item.toList.getLast?.any isQuote = false := by
    constructor
    · cases head : item.toList.head? with
      | none => rfl
      | some first => exact (plain item member first (List.mem_of_mem_head? head)).1
    · cases last : item.toList.getLast? with
      | none => rfl
      | some character => exact (plain item member character (List.mem_of_mem_getLast? last)).1
  have each : (items.map fun item => Value.str (String.ofList (stripQuotes (Encodable.quoted item)))) =
      items.map .str :=
    List.map_congr_left fun item member => congrArg Value.str
      (Encodable.strip_quoted (noQuote member).1 (noQuote member).2)
  have notTruths : boolArray? (layout.array "stringArray" (items.map Encodable.quoted)) = none := by
    rw [boolArray?, Layout.array, array_of_other_name (by decide) (by decide)]
    rfl
  rw [readDefault, Encodable.encoded, Encodable.core, trim_encoded (array_framed layout rfl (by decide) _)]
  simp only [notTruths, stringArray?, layout.array_own areItems, Option.map_some,
    layout.array_items_inner areItems, List.map_map, Function.comp_def, each]
  rfl

theorem read_words (layout : Layout) (items : List Int64) :
    readDefault ((Encodable.words items).encoded layout) = .list (items.map .int) := by
  have areItems : ∀ item ∈ items.map Encodable.wordText, IsItem item :=
    List.forall_mem_map.mpr fun item _ => Encodable.word_text_is_item item
  have each : ((items.map Encodable.wordText).mapM fun item => (Integer.readWord? item).map Value.int) =
      some (items.map .int) := by
    have read : (fun item => (Integer.readWord? item).map Value.int) ∘ Encodable.wordText =
        fun integer => pure (Value.int integer) := by
      funext integer
      exact congrArg (Option.map Value.int) (Integer.read_word_render integer)
    rw [List.mapM_map]
    exact (congrArg (List.mapM · items) read).trans List.mapM_pure
  have notTruths : boolArray? (layout.array "intArray" (items.map Encodable.wordText)) = none := by
    rw [boolArray?, Layout.array, array_of_other_name (by decide) (by decide)]
    rfl
  have notTexts : stringArray? (layout.array "intArray" (items.map Encodable.wordText)) = none := by
    rw [stringArray?, Layout.array, array_of_other_name (by decide) (by decide)]
    rfl
  rw [readDefault, Encodable.encoded, Encodable.core, trim_encoded (array_framed layout rfl (by decide) _)]
  simp only [notTruths, notTexts, numberArray?, layout.array_own areItems, layout.array_items_inner areItems,
    each]
  rfl

/-- Each encoding is read back as the value it was written for. -/
theorem read_encoded {encodable : Encodable} (plain : encodable.IsPlain) (layout : Layout) :
    readDefault (encodable.encoded layout) = encodable.value := by
  cases encodable with
  | truth holds =>
      rw [readDefault, Encodable.encoded, Encodable.core,
        trim_encoded (Encodable.truth_text_is_item holds).framed]
      cases holds <;> rfl
  | word integer =>
      have trimmed := trim_encoded (Encodable.word_text_is_item integer).framed layout
      obtain ⟨first, rest, whole, mark⟩ := Encodable.word_text_start integer
      rw [whole] at trimmed
      rw [Encodable.encoded, Encodable.core, whole, read_scalar mark trimmed, ← whole, number?,
        Encodable.wordText, Integer.read_word_render]
      rfl
  | text content =>
      have trimmed : trim ((Encodable.text content).encoded layout) = '\'' :: (content.toList ++ ['\'']) :=
        trim_encoded (Encodable.quoted_framed content) layout
      rw [read_scalar (by decide) trimmed, number_of_quoted, Option.getD_none]
      exact congrArg Value.str (Encodable.strip_quoted plain.1 plain.2)
  | truths items => exact read_truths layout items
  | words items => exact read_words layout items
  | texts items => exact read_texts layout plain

def spacedLayout : Layout where
  before := [' ', '\u3000']
  opening := ['\t']
  comma := true
  closing := [' ']
  after := ['\n']
  blankAround := by decide
  blankInside := by decide

theorem read_encoded_of_spaced_texts :
    (Encodable.texts ["", " 1.5 ", "True"]).IsPlain ∧
      (Encodable.texts ["", " 1.5 ", "True"]).encoded spacedLayout =
        " \u3000stringArray=[\t'', ' 1.5 ', 'True', ]\n".toList ∧
      readDefault ((Encodable.texts ["", " 1.5 ", "True"]).encoded spacedLayout) =
        .list [.str "", .str " 1.5 ", .str "True"] := by
  have plain : (Encodable.texts ["", " 1.5 ", "True"]).IsPlain := by
    change ∀ item ∈ ["", " 1.5 ", "True"], ∀ character ∈ item.toList,
      isQuote character = false ∧ character ≠ ',' ∧ character ≠ ']' ∧ character ≠ '\n'
    decide
  exact ⟨plain, rfl, read_encoded plain spacedLayout⟩

end TaskCab.Docstring
