import TaskCab.Proofs.Reference.ArrayMarks
import TaskCab.Proofs.Reference.DataEquality
import TaskCab.Proofs.Source.Attributes
import TaskCab.Proofs.Text.Lowering
import TaskCab.Proofs.Value.NumberText
import TaskCab.Proofs.Value.SignedNumber

/-!
# Published arrays of integers

An array of integers is published as a call of a constructor, its items bare or in number constructors of
their own. It is no literal and stands for its own text, whose numbers are read once the marks are out.
-/

namespace TaskCab.Matching

open Text Value Source

/-- How an integer is written as an item of an array: bare or in a number constructor, and in that of floats
with a point and a zero behind it or without. -/
inductive ItemForm where
  | bare
  | int
  | float
  | pointed
deriving DecidableEq, Repr

namespace ItemForm

def opening : ItemForm → List Char
  | bare => []
  | int => "int(".toList
  | float | pointed => "float(".toList

def fraction : ItemForm → List Char
  | bare | int | float => []
  | pointed => ".0".toList

def digits (form : ItemForm) (word : Int64) : List Char := Integer.render word.toInt ++ form.fraction

def closing : ItemForm → List Char
  | bare => []
  | int | float | pointed => [')']

def write (form : ItemForm) (word : Int64) : List Char := form.opening ++ form.digits word ++ form.closing

def value (word : Int64) : ItemForm → Value
  | bare | int | float => .int word
  | pointed => .float (.ofInt word.toInt)

end ItemForm

/-- The text of an array of integers, each written in some form. -/
def arrayText (items : List (ItemForm × Int64)) : List Char :=
  "numpy.array([".toList ++ joinWith ", ".toList (items.map fun item => item.1.write item.2) ++ "])".toList

theorem digits_chars (form : ItemForm) (word : Int64) :
    ∀ character ∈ form.digits word, character.isDigit = true ∨ character ∈ "-.".toList := by
  intro character member
  rcases List.mem_append.mp member with inNumber | inPoint
  · rw [Integer.render] at inNumber
    split at inNumber
    · rcases List.mem_cons.mp inNumber with rfl | isDigit
      · exact .inr (by decide)
      · exact .inl (Integer.is_digit_of_mem_digits isDigit)
    · exact .inl (Integer.is_digit_of_mem_digits inNumber)
  · cases form with
    | pointed =>
      rcases List.mem_cons.mp inPoint with rfl | inPoint
      · exact .inr (by decide)
      · obtain rfl := List.mem_singleton.mp inPoint
        exact .inl rfl
    | bare | int | float => cases inPoint

theorem digits_plain (form : ItemForm) (word : Int64) :
    ∀ character ∈ form.digits word, character ∉ "n)[]if, ".toList := by
  intro character member mark
  rcases digits_chars form word character member with isDigit | sign
  · exact absurd isDigit ((by decide : ∀ mark ∈ "n)[]if, ".toList, ¬mark.isDigit = true) character mark)
  · exact (by decide : ∀ mark ∈ "n)[]if, ".toList, mark ∉ "-.".toList) character mark sign

theorem keeps_marks_item (item : ItemForm × Int64) :
    Keeps (dropArrayMarks 0) (item.1.write item.2) (item.1.opening ++ item.1.digits item.2) := by
  have number : Keeps (dropArrayMarks 0) (item.1.digits item.2) (item.1.digits item.2) := by
    apply keeps_marks_run
    intro character member mark
    exact digits_plain item.1 item.2 character member
      ((by decide : ∀ mark ∈ "n)[]".toList, mark ∈ "n)[]if, ".toList) character mark)
  have closing : Keeps (dropArrayMarks 0) item.1.closing [] := by
    intro rest
    cases item.1 <;> rfl
  have opening : Keeps (dropArrayMarks 0) item.1.opening item.1.opening := by
    intro rest
    cases item.1 <;> rfl
  have whole := keeps_append (keeps_append opening number) closing
  rwa [List.append_nil] at whole

theorem keeps_constructors_item (item : ItemForm × Int64) :
    Keeps (dropConstructors 0) (item.1.opening ++ item.1.digits item.2) (item.1.digits item.2) := by
  have number : Keeps (dropConstructors 0) (item.1.digits item.2) (item.1.digits item.2) := by
    apply keeps_constructors_run
    intro character member mark
    exact digits_plain item.1 item.2 character member
      ((by decide : ∀ mark ∈ "if".toList, mark ∈ "n)[]if, ".toList) character mark)
  have opening : Keeps (dropConstructors 0) item.1.opening [] := by
    intro rest
    cases item.1 <;> rfl
  have whole := keeps_append opening number
  rwa [List.nil_append] at whole

/-- What is left of the text of an array without its marks and constructors. -/
theorem bare_array (items : List (ItemForm × Int64)) :
    dropConstructors 0 (dropArrayMarks 0 (arrayText items)) =
      joinWith ", ".toList (items.map fun item => item.1.digits item.2) := by
  have betweenMarks : Keeps (dropArrayMarks 0) ", ".toList ", ".toList := by
    intro rest
    rfl
  have betweenConstructors : Keeps (dropConstructors 0) ", ".toList ", ".toList := by
    intro rest
    rfl
  have marks := keeps_join betweenMarks keeps_marks_item items "])".toList
  have constructors := keeps_join betweenConstructors keeps_constructors_item items []
  have front (rest : List Char) :
      dropArrayMarks 0 ("numpy.array([".toList ++ rest) = dropArrayMarks 0 rest := by rfl
  have rear : dropArrayMarks 0 "])".toList = [] := by rfl
  have none : dropConstructors 0 [] = [] := by rfl
  rw [rear, List.append_nil] at marks
  rw [none, List.append_nil, List.append_nil] at constructors
  unfold arrayText
  rw [List.append_assoc, front, marks, constructors]

theorem array_item_blank (item : List Char) : arrayItem? (' ' :: item) = arrayItem? item := rfl

theorem items_behind_blank (text : List Char) :
    (splitWhere (· == ',') (' ' :: text)).mapM arrayItem? = (splitWhere (· == ',') text).mapM arrayItem? := by
  obtain ⟨piece, pieces, found⟩ := List.exists_cons_of_ne_nil (split_where_ne_nil (· == ',') text)
  have cuts : splitWhere (· == ',') (' ' :: text) = (' ' :: piece) :: pieces := by
    simp [splitWhere, found]
  rw [cuts, found, List.mapM_cons, List.mapM_cons, array_item_blank]

theorem items_joined {pieces : List (List Char)} (nonempty : pieces ≠ [])
    (noComma : ∀ piece ∈ pieces, ',' ∉ piece) :
    (splitWhere (· == ',') (joinWith ", ".toList pieces)).mapM arrayItem? = pieces.mapM arrayItem? := by
  induction pieces with
  | nil => exact absurd rfl nonempty
  | cons piece rest ih =>
      have noSplit : ∀ character ∈ piece, (character == ',') = false := by
        intro character member
        rw [beq_eq_false_iff_ne]
        rintro rfl
        exact noComma piece (.head _) member
      cases rest with
      | nil => rw [join_with_cons, List.flatMap_nil, List.append_nil, split_where_none noSplit]
      | cons next more =>
          have later := ih (by simp) fun other member => noComma other (.tail _ member)
          -- The blank behind the comma is left in front of the next piece.
          have text : joinWith ", ".toList (piece :: next :: more) =
              piece ++ ',' :: ' ' :: joinWith ", ".toList (next :: more) := by
            rw [join_with_cons_cons, List.append_assoc]
            rfl
          rw [text, split_where_first noSplit rfl, List.mapM_cons, List.mapM_cons, items_behind_blank, later]

theorem digits_parts (form : ItemForm) (word : Int64) :
    ∃ first rest, first.isDigit = true ∧ Integer.digits word.toInt.natAbs = first :: rest ∧
      form.digits word =
        (if decide (word.toInt < 0) then ['-'] else []) ++ first :: (rest ++ form.fraction) := by
  obtain ⟨first, rest, parts⟩ := List.exists_cons_of_ne_nil (Integer.digits_ne_nil word.toInt.natAbs)
  have isDigit : first.isDigit = true := Numeral.is_digits_digits word.toInt.natAbs first (by simp [parts])
  refine ⟨first, rest, isDigit, parts, ?_⟩
  rw [ItemForm.digits, Integer.render_parts, parts, List.append_assoc, List.cons_append]

theorem without_sign {first : Char} (isDigit : first.isDigit = true) (rest : List Char) (negative : Bool) :
    (afterStart? ['-'] ((if negative then ['-'] else []) ++ first :: rest)).getD
      ((if negative then ['-'] else []) ++ first :: rest) = first :: rest := by
  cases negative with
  | true => rfl
  | false =>
      have notMinus : '-' ≠ first := by
        rintro rfl
        simp at isDigit
      simp [afterStart?, notMinus]

/-- A number with a point and a zero behind it is the nearest one to the integer. -/
theorem read_pointed (word : Int64) :
    Binary64.read? (ItemForm.pointed.digits word) = some (.ofInt word.toInt) := by
  obtain ⟨first, rest, isDigit, parts, whole⟩ := digits_parts .pointed word
  have areDigits : Numeral.IsDigits (first :: rest) := parts ▸ Numeral.is_digits_digits word.toInt.natAbs
  have isNumber : Numeral.IsNumber ⟨first :: rest, ['0'], none⟩ :=
    ⟨⟨List.cons_ne_nil _ _, areDigits⟩, by simp [Numeral.IsDigits], by simp⟩
  have reads := Integer.read_digits_trailing_zeros 1 (Integer.read_digits_digits word.toInt.natAbs)
  rw [parts] at reads
  have read := Numeral.read_text isNumber (Numeral.reads_plain reads) (decide (word.toInt < 0))
  have text : Numeral.text ⟨first :: rest, ['0'], none⟩ = first :: (rest ++ ItemForm.pointed.fraction) := by
    simp [Numeral.text, Numeral.fractionText, Numeral.exponentText, ItemForm.fraction]
  rw [whole, Binary64.read_digit isDigit, ← text, read, ← Decimal.to_binary64_word,
    ← Decimal.to_binary64_tenths]
  rfl

theorem array_item_digits (form : ItemForm) (word : Int64) :
    arrayItem? (form.digits word) = some (form.value word) := by
  obtain ⟨first, rest, isDigit, parts, whole⟩ := digits_parts form word
  have areDigits : Numeral.IsDigits (first :: rest) := parts ▸ Numeral.is_digits_digits word.toInt.natAbs
  have graphic : ∀ character ∈ form.digits word, IsGraphic character := by
    intro character member
    rcases digits_chars form word character member with isDigit | sign
    · exact graphic_of_number_char (.inl isDigit)
    · exact (by decide : ∀ sign ∈ "-.".toList, IsGraphic sign) character sign
  have trimmed : trim (form.digits word) = form.digits word :=
    trim_of_framed (framed_of_graphic (by simp [whole]) graphic)
  unfold arrayItem?
  rw [trimmed]
  dsimp only
  rw [whole, without_sign isDigit, ← whole]
  cases form with
  | bare | int | float =>
      have all := List.forall_mem_cons.mp areDigits
      simpa [ItemForm.fraction, ItemForm.digits, Integer.read_word_render, ItemForm.value] using all
  | pointed =>
      have notAll : (first :: (rest ++ ItemForm.pointed.fraction)).all Char.isDigit = false := by
        simp [ItemForm.fraction]
      simp [notAll, read_pointed, ItemForm.value]

theorem number_array_text {items : List (ItemForm × Int64)} (nonempty : items ≠ []) :
    numberArray? (arrayText items) = some (items.map fun item => item.1.value item.2) := by
  have notBlank :
      isBlankText (joinWith ", ".toList (items.map fun item => item.1.digits item.2)) = false := by
    obtain ⟨item, more, rfl⟩ := List.exists_cons_of_ne_nil nonempty
    obtain ⟨first, rest, isDigit, -, whole⟩ := digits_parts item.1 item.2
    have visible : isBlank first = false :=
      not_blank_of_is_graphic (graphic_of_number_char (.inl isDigit))
    have atFront : first ∈ joinWith ", ".toList
        ((item :: more).map fun item => item.1.digits item.2) := by
      rw [List.map_cons, join_with_cons, whole]
      simp
    rw [isBlankText, List.all_eq_false]
    exact ⟨first, atFront, Bool.eq_false_iff.mp visible⟩
  have noComma : ∀ piece ∈ items.map fun item => item.1.digits item.2, ',' ∉ piece := by
    intro piece member comma
    obtain ⟨item, -, rfl⟩ := List.mem_map.mp member
    exact digits_plain item.1 item.2 ',' comma (by decide)
  have read : (items.map fun item => item.1.digits item.2).mapM arrayItem? =
      some (items.map fun item => item.1.value item.2) := by
    have each : arrayItem? ∘ (fun item : ItemForm × Int64 => item.1.digits item.2) =
        fun item => pure (item.1.value item.2) := by
      funext item
      exact array_item_digits item.1 item.2
    rw [List.mapM_map]
    exact (congrArg (List.mapM · items) each).trans List.mapM_pure
  unfold numberArray?
  rw [bare_array]
  dsimp only
  rw [notBlank, if_neg Bool.false_ne_true, items_joined (by simpa using nonempty) noComma, read]

def arrayFrame : List Char := "numpy.array([, ])intfloat(-.".toList

theorem array_text_chars (items : List (ItemForm × Int64)) :
    ∀ character ∈ arrayText items, character.isDigit = true ∨ character ∈ arrayFrame := by
  have inItem (item : ItemForm × Int64) :
      ∀ character ∈ item.1.write item.2, character.isDigit = true ∨ character ∈ arrayFrame := by
    have signs : ∀ sign ∈ "-.".toList, sign ∈ arrayFrame := by decide
    have opening (form : ItemForm) : ∀ character ∈ form.opening, character ∈ arrayFrame := by
      cases form <;> decide
    have closing (form : ItemForm) : ∀ character ∈ form.closing, character ∈ arrayFrame := by
      cases form <;> decide
    intro character member
    rw [ItemForm.write, List.append_assoc, List.mem_append, List.mem_append] at member
    rcases member with opens | number | closes
    · exact .inr (opening item.1 character opens)
    · exact (digits_chars item.1 item.2 character number).imp_right (signs character)
    · exact .inr (closing item.1 character closes)
  have front : ∀ character ∈ "numpy.array([".toList, character ∈ arrayFrame := by decide
  have separator : ∀ character ∈ ", ".toList, character ∈ arrayFrame := by decide
  have rear : ∀ character ∈ "])".toList, character ∈ arrayFrame := by decide
  intro character member
  unfold arrayText at member
  rw [List.append_assoc, List.mem_append, List.mem_append] at member
  rcases member with opens | inside | closes
  · exact .inr (front character opens)
  · rcases mem_join_with inside with between | ⟨piece, isPiece, inPiece⟩
    · exact .inr (separator character between)
    · obtain ⟨item, -, rfl⟩ := List.mem_map.mp isPiece
      exact inItem item character inPiece
  · exact .inr (rear character closes)

theorem lower_array_text (items : List (ItemForm × Int64)) : lower (arrayText items) = arrayText items := by
  have frame : ∀ character ∈ arrayFrame, character.toNat < 0x80 ∧ character.toLower = character := by decide
  refine lower_of_small fun character member => ?_
  rcases array_text_chars items character member with isDigit | inFrame
  · obtain ⟨-, upper⟩ := graphic_of_number_char (.inl isDigit)
    exact ⟨by omega, to_lower_of_digit isDigit⟩
  · exact frame character inFrame

theorem trim_array_text (items : List (ItemForm × Int64)) : trim (arrayText items) = arrayText items := by
  have ends : arrayText items = 'n' :: (("umpy.array([".toList ++
      joinWith ", ".toList (items.map fun item => item.1.write item.2) ++ [']']) ++ [')']) := by
    unfold arrayText
    simp
  rw [ends]
  exact trim_of_framed (framed_between (by decide) (by decide) _)

theorem array_text_ne_empty {items : List (ItemForm × Int64)} (nonempty : items ≠ []) :
    arrayText items ≠ "numpy.array([])".toList := by
  obtain ⟨item, more, rfl⟩ := List.exists_cons_of_ne_nil nonempty
  obtain ⟨first, rest, -, -, whole⟩ := digits_parts item.1 item.2
  intro same
  have lengths := congrArg List.length same
  unfold arrayText at lengths
  rw [List.map_cons, join_with_cons, ItemForm.write, whole] at lengths
  simp at lengths
  omega

/-- The text of an array starts with an attribute, and so has no value. -/
theorem decode_array_text (items : List (ItemForm × Int64)) :
    ∃ compact, Literal.decode (arrayText items) = .verbatim compact := by
  have name (rest : List Char) : Lexeme.Starts ⟨.word, "numpy".toList⟩ ('.' :: rest) :=
    Lexeme.starts_identifier (by decide) (by simp; decide) (by simp; decide)
  have point (rest : List Char) : Lexeme.Starts ⟨.symbol, ['.']⟩ ("array([".toList ++ rest) :=
    ⟨'.', [], rfl, rfl⟩
  let inside := joinWith ", ".toList (items.map fun item => item.1.write item.2) ++ "])".toList
  have text : arrayText items = "numpy".toList ++ '.' :: ("array([".toList ++ inside) := by
    unfold arrayText
    rw [List.append_assoc]
    rfl
  have scanned : Lexeme.scan (trim (arrayText items)) =
      ⟨.word, "numpy".toList⟩ :: ⟨.symbol, ['.']⟩ :: Lexeme.scanFrom 0 ("array([".toList ++ inside) := by
    have word := Lexeme.scan_from_starts (name ("array([".toList ++ inside))
    have behind := Lexeme.scan_from_starts (point inside)
    rw [trim_array_text, text, Lexeme.scan_of_no_mark (by simp), word]
    exact congrArg _ behind
  rw [Literal.decode, Literal.read_of_attribute scanned]
  exact ⟨_, rfl⟩

theorem normalize_array_text {items : List (ItemForm × Int64)} (nonempty : items ≠ []) :
    normalizeText (arrayText items) = .str (String.ofList (arrayText items)) := by
  have notBools : arrayText items ≠ "(boolArray=[True])".toList := by
    have first : (arrayText items).head? = some 'n' := rfl
    intro same
    rw [same] at first
    exact absurd first (by decide)
  obtain ⟨compact, verbatim⟩ := decode_array_text items
  unfold normalizeText
  rw [trim_array_text]
  dsimp only
  rw [if_neg (array_text_ne_empty nonempty), if_neg notBools, verbatim]
  dsimp only
  rw [lower_array_text]

/-- Among integers, a number with a point and a zero behind it equals what the integer equals. -/
theorem loose_eq_item (word other : Int64) (form : ItemForm) :
    looseEq (.int word) (form.value other) = looseEq (.int word) (.int other) := by
  cases form <;> simp [ItemForm.value, looseEq, number?]

theorem not_empty_among_bools (words : List Int64) :
    isEmptyAmongBools (words.map .int) [] = true ↔ words = [] := by
  cases words with
  | nil => simp [isEmptyAmongBools]
  | cons word rest => simp [isEmptyAmongBools, isBool]

/-- A list of integers matches the text of an array of integers exactly if the two have equal items, in
whichever form each item of the array is written. The empty array matches the empty list alone. -/
theorem matches_array_iff (words : List Int64) (items : List (ItemForm × Int64)) :
    (matchesDefault (.list (words.map .int)) (normalizeText (arrayText items)) = true ↔
      List.Forall₂ (fun word other => looseEq (.int word) (.int other) = true) words (items.map Prod.snd)) ∧
    (matchesDefault (.list (words.map .int)) (normalizeText "numpy.array([])".toList) = true ↔
      words = []) := by
  have emptyArray : matchesDefault (.list (words.map .int)) (normalizeText "numpy.array([])".toList) = true ↔
      words = [] := by
    have normal : normalizeText "numpy.array([])".toList = .list [] := rfl
    rw [normal, matchesDefault, Bool.or_eq_true, not_empty_among_bools, looseEq, loose_eq_items_iff,
      List.forall₂_nil_right_iff, List.map_eq_nil_iff, or_self]
  refine ⟨?_, emptyArray⟩
  -- Without items the text is known by heart and stands for a list, else for itself.
  by_cases nonempty : items = []
  · obtain rfl := nonempty
    rw [List.map_nil, List.forall₂_nil_right_iff]
    exact emptyArray
  · have items : looseEqItems (words.map .int) (items.map fun item => item.1.value item.2) = true ↔
        List.Forall₂ (fun word other => looseEq (.int word) (.int other) = true) words
          (items.map Prod.snd) := by
      rw [loose_eq_items_iff, List.forall₂_map_left_iff, List.forall₂_map_right_iff,
        List.forall₂_map_right_iff]
      simp only [loose_eq_item]
    have noData (text : String) : looseEq (.list (words.map .int)) (.str text) = false := rfl
    rw [normalize_array_text nonempty, ← items]
    simp [matchesDefault, noData, number_array_text nonempty]

end TaskCab.Matching
