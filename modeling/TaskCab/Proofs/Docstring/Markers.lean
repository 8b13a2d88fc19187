import TaskCab.Proofs.Docstring.Encodings
import TaskCab.Proofs.Text.Lowering

/-!
# Defaults behind a marker

The text of a default ends at the first closing parenthesis behind its marker. An encoding that holds such a
parenthesis itself is cut there: behind the items of an array nothing is lost, but a parenthesis among the
items, or the one that ends an empty array of numbers, makes a text of what is left.
-/

namespace TaskCab.Docstring

open TaskCab.Text

/-! ## Recognized encodings -/

def arrays? (text : List Char) : Option Value := boolArray? text <|> stringArray? text <|> numberArray? text

/-- What the recognizers of defaults make of a text; none leaves it to be a text. -/
def recognized? (text : List Char) : Option Value :=
  arrays? text <|> emptyArray? text <|> truth? text <|> number? text

theorem read_default_eq (raw : List Char) :
    readDefault raw = (recognized? (trim raw)).getD (.str (String.ofList (stripQuotes (trim raw)))) := by
  unfold readDefault recognized? arrays?
  dsimp only
  cases boolArray? (trim raw) with
  | some value => rfl
  | none =>
      cases stringArray? (trim raw) with
      | some value => rfl
      | none => cases numberArray? (trim raw) <;> rfl

def arrayNames : List String := ["boolArray", "stringArray", "intArray", "floatArray"]

theorem arrays_congr {left right : List Char}
    (same : ∀ name ∈ arrayNames, array? name left = array? name right) : arrays? left = arrays? right := by
  simp only [arrays?, boolArray?, stringArray?, numberArray?, same _ (.head _), same _ (.tail _ (.head _)),
    same _ (.tail _ (.tail _ (.head _))), same _ (.tail _ (.tail _ (.tail _ (.head _))))]

theorem arrays_none {text : List Char} (noArray : ∀ name ∈ arrayNames, array? name text = none) :
    arrays? text = none := by
  have empty : ∀ name ∈ arrayNames, array? name [] = none := by decide
  exact (arrays_congr fun name isName => (noArray name isName).trans (empty name isName).symm).trans rfl

/-- What is read as an array is one of the arrays by name, and its value is a list. -/
theorem array_of_arrays {text : List Char} {value : Value} (found : arrays? text = some value) :
    (∃ name ∈ arrayNames, ∃ inner, array? name text = some inner) ∧ ∃ items, value = .list items := by
  simp only [arrays?, Option.orElse_eq_orElse, Option.orElse_eq_or, Option.or_eq_some_iff] at found
  rcases found with truths | ⟨-, texts | ⟨-, numbers⟩⟩
  · obtain ⟨inner, own, rfl⟩ := Option.map_eq_some_iff.mp truths
    exact ⟨⟨_, by decide, inner, own⟩, _, rfl⟩
  · obtain ⟨inner, own, rfl⟩ := Option.map_eq_some_iff.mp texts
    exact ⟨⟨_, by decide, inner, own⟩, _, rfl⟩
  · unfold numberArray? at numbers
    split at numbers
    next inner own =>
      obtain ⟨items, -, rfl⟩ := Option.map_eq_some_iff.mp numbers
      exact ⟨⟨_, by decide, inner, own⟩, _, rfl⟩
    next =>
      obtain ⟨inner, own, read⟩ := Option.bind_eq_some_iff.mp numbers
      obtain ⟨items, -, rfl⟩ := Option.map_eq_some_iff.mp read
      exact ⟨⟨_, by decide, inner, own⟩, _, rfl⟩

def IsNumeralChar (character : Char) : Prop := character.isDigit = true ∨ character ∈ "+-.eE".toList

instance : DecidablePred IsNumeralChar :=
  fun character => inferInstanceAs (Decidable (character.isDigit = true ∨ character ∈ "+-.eE".toList))

theorem chars_of_nat {text : List Char} {value : Nat} (read : Integer.readNat? 10 text = some value) :
    ∀ character ∈ text, IsNumeralChar character := by
  unfold Integer.readNat? at read
  split at read
  next => simp at read
  next => exact fun c member => .inl (Integer.is_digit_of_read read c member)

theorem chars_of_integer {text : List Char} {value : Int} (read : Integer.read? text = some value) :
    ∀ character ∈ text, IsNumeralChar character := by
  unfold Integer.read? at read
  split at read
  all_goals
    obtain ⟨_, magnitude, -⟩ := Option.map_eq_some_iff.mp read
    obtain ⟨_, digits, -⟩ := Option.bind_eq_some_iff.mp magnitude
  · exact List.forall_mem_cons.mpr ⟨by decide, chars_of_nat digits⟩
  · exact List.forall_mem_cons.mpr ⟨by decide, chars_of_nat digits⟩
  · exact chars_of_nat digits

theorem chars_of_exponent {text : List Char} {value : Int} (read : Decimal.readExponent? text = some value) :
    ∀ character ∈ text, IsNumeralChar character := by
  cases text with
  | nil => exact List.forall_mem_nil _
  | cons letter rest =>
      rw [Decimal.readExponent?] at read
      split at read
      next mark =>
        refine List.forall_mem_cons.mpr ⟨?_, chars_of_integer read⟩
        rcases mark with rfl | rfl <;> decide
      next => simp at read

theorem chars_of_unsigned {negative : Bool} {text : List Char} {decimal : Decimal}
    (read : Decimal.readUnsigned? negative text = some decimal) :
    ∀ character ∈ text, IsNumeralChar character := by
  have run (text : List Char) : ∀ c ∈ text.takeWhile Char.isDigit, IsNumeralChar c :=
    fun c member => .inl (List.mem_takeWhile_imp member)
  rw [Numeral.read_unsigned_eq, List.span_eq_takeWhile_dropWhile] at read
  dsimp only at read
  split at read
  next => simp at read
  next =>
    obtain ⟨exponent, readExponent, -⟩ := Option.bind_eq_some_iff.mp read
    rw [← @List.takeWhile_append_dropWhile _ Char.isDigit text]
    refine List.forall_mem_append.mpr ⟨run text, ?_⟩
    unfold Numeral.readFraction at readExponent
    split at readExponent
    next rest same =>
      rw [List.span_eq_takeWhile_dropWhile] at readExponent
      rw [same, ← @List.takeWhile_append_dropWhile _ Char.isDigit rest]
      exact List.forall_mem_cons.mpr ⟨by decide,
        List.forall_mem_append.mpr ⟨run rest, chars_of_exponent readExponent⟩⟩
    next => exact chars_of_exponent readExponent

theorem chars_of_number {text : List Char} {value : Value} (found : number? text = some value) :
    ∀ character ∈ text, IsNumeralChar character := by
  rw [number?, Option.orElse_eq_orElse, Option.orElse_eq_or, Option.or_eq_some_iff] at found
  rcases found with isInteger | ⟨-, isFloat⟩
  · obtain ⟨word, readWord, -⟩ := Option.map_eq_some_iff.mp isInteger
    obtain ⟨integer, read, -⟩ := Option.bind_eq_some_iff.mp readWord
    exact chars_of_integer read
  · obtain ⟨number, readFloat, -⟩ := Option.map_eq_some_iff.mp isFloat
    obtain ⟨decimal, read, -⟩ := Option.map_eq_some_iff.mp readFloat
    unfold Decimal.read? at read
    split at read
    · exact List.forall_mem_cons.mpr ⟨by decide, chars_of_unsigned read⟩
    · exact List.forall_mem_cons.mpr ⟨by decide, chars_of_unsigned read⟩
    · exact chars_of_unsigned read

theorem no_scalar_of_bracket {text : List Char} {bracket : Char} (isBracket : bracket ∈ "()[]".toList)
    (member : bracket ∈ text) : truth? text = none ∧ number? text = none := by
  have facts : bracket.toNat < 0x80 ∧ bracket.toLower ∉ "true".toList ∧ bracket.toLower ∉ "false".toList ∧
      ¬IsNumeralChar bracket :=
    (by decide : ∀ c ∈ "()[]".toList, c.toNat < 0x80 ∧ c.toLower ∉ "true".toList ∧
      c.toLower ∉ "false".toList ∧ ¬IsNumeralChar c) bracket isBracket
  have lowered := mem_lower facts.1 member
  constructor
  · have notTrue : lower text ≠ "true".toList := fun same => facts.2.1 (same ▸ lowered)
    have notFalse : lower text ≠ "false".toList := fun same => facts.2.2.1 (same ▸ lowered)
    rw [truth?, if_neg notTrue, if_neg notFalse]
  · cases found : number? text with
    | none => rfl
    | some value => exact absurd (chars_of_number found bracket member) facts.2.2.2

/-! ## Fronts of arrays -/

def front (text : List Char) : List Char := text.takeWhile (· ≠ ']')

theorem front_parts {text : List Char} (closed : ']' ∈ text) :
    ']' ∉ front text ∧ ∃ rest, text = front text ++ ']' :: rest := by
  have whole : front text ++ text.dropWhile (· ≠ ']') = text := List.takeWhile_append_dropWhile
  have stop := List.head?_dropWhile_not (· ≠ ']') text
  have notIn : ']' ∉ front text := fun member => by simpa using List.mem_takeWhile_imp member
  refine ⟨notIn, ?_⟩
  cases behind : text.dropWhile (· ≠ ']') with
  | nil =>
      rw [behind, List.append_nil] at whole
      rw [← whole] at closed
      exact absurd closed notIn
  | cons character rest =>
      rw [behind] at stop whole
      obtain rfl : character = ']' := by simpa using stop
      exact ⟨rest, whole.symm⟩

theorem front_of_parts {start : List Char} (notIn : ']' ∉ start) (rest : List Char) :
    front (start ++ ']' :: rest) = start := by
  refine take_while_run (fun c member => ?_) (stops_cons.mpr (by decide))
  rw [decide_eq_true_eq]
  rintro rfl
  exact notIn member

/-- An array is decided by what stands in front of its closing bracket. -/
theorem array_front_iff {name : String} (plain : ']' ∉ name.toList) (text inner : List Char) :
    array? name text = some inner ↔
      '\n' ∉ inner ∧ ']' ∈ text ∧ front text = name.toList ++ '=' :: '[' :: inner := by
  have opening (rest : List Char) : name.toList ++ '=' :: '[' :: (inner ++ ']' :: rest) =
      (name.toList ++ '=' :: '[' :: inner) ++ ']' :: rest := by simp
  rw [array_iff]
  constructor
  · rintro ⟨own, rest, rfl⟩
    have notIn : ']' ∉ name.toList ++ '=' :: '[' :: inner := by
      intro member
      rcases List.mem_append.mp member with inName | inInner
      · exact plain inName
      · have later : ']' ∈ inner := by simpa using inInner
        exact (own ']' later).1 rfl
    rw [opening]
    exact ⟨fun member => (own '\n' member).2 rfl, by simp, front_of_parts notIn rest⟩
  · rintro ⟨noFeed, closed, same⟩
    obtain ⟨notIn, rest, whole⟩ := front_parts closed
    rw [same] at notIn whole
    refine ⟨fun c member => ⟨?_, fun feed => noFeed (feed ▸ member)⟩, rest, by rw [opening, ← whole]⟩
    rintro rfl
    exact notIn (by simp [member])

theorem array_congr {name : String} (plain : ']' ∉ name.toList) {left right : List Char}
    (same : front left = front right) (closed : ']' ∈ left ↔ ']' ∈ right) :
    array? name left = array? name right := by
  ext inner
  rw [array_front_iff plain, array_front_iff plain, same, closed]

theorem name_plain {name : String} (isName : name ∈ arrayNames) : ']' ∉ name.toList ∧ ')' ∉ name.toList ∧
    ∀ character ∈ name.toList.head?, isBlank character = false := by
  have names : name = "boolArray" ∨ name = "stringArray" ∨ name = "intArray" ∨ name = "floatArray" := by
    simpa [arrayNames] using isName
  rcases names with rfl | rfl | rfl | rfl <;> exact ⟨by decide, by decide, by simp [isBlank]⟩

theorem unrecognized_of_open {text : List Char} (opened : '[' ∈ text) (notClosed : ']' ∉ text) :
    recognized? text = none := by
  have noArray : arrays? text = none := arrays_none fun name isName => by
    cases found : array? name text with
    | none => rfl
    | some inner => exact absurd ((array_front_iff (name_plain isName).1 _ _).mp found).2.1 notClosed
  have noEmpty : emptyArray? text = none := by
    rw [emptyArray?, if_neg]
    rintro rfl
    exact notClosed (by decide)
  obtain ⟨noTruth, noNumber⟩ := no_scalar_of_bracket (by decide) opened
  rw [recognized?, noArray, noEmpty, noTruth, noNumber]
  rfl

/-! ## Cut encodings -/

/-- The part of a text that a marker keeps of it. -/
def kept (text : List Char) : List Char := text.takeWhile (· ≠ ')')

/-- Whether a marker keeps what an encoding means: the encoding is not the empty array of numbers, which
ends in a parenthesis of its own, and holds none in front of a closing square bracket. -/
def IsKept (text : List Char) : Prop := text ≠ "numpy.array([])".toList ∧ ')' ∉ front text

theorem kept_of_none {text : List Char} (none : ')' ∉ text) : kept text = text := by
  refine List.takeWhile_eq_self_iff.mpr fun c member => ?_
  rw [decide_eq_true_eq]
  rintro rfl
  exact none member

theorem kept_append {start : List Char} (none : ')' ∉ start) (rest : List Char) :
    kept (start ++ rest) = start ++ kept rest := by
  refine List.takeWhile_append_of_pos fun c member => ?_
  rw [decide_eq_true_eq]
  rintro rfl
  exact none member

theorem kept_of_mem {start : List Char} (member : ')' ∈ start) (rest : List Char) :
    kept (start ++ rest) = kept start := by
  rw [kept, kept, List.takeWhile_append]
  split
  next full =>
    have whole := (List.takeWhile_prefix (· ≠ ')')).eq_of_length full
    rw [← whole] at member
    simpa using List.mem_takeWhile_imp member
  next => rfl

theorem no_closing_of_blank {blanks : List Char} (blank : ∀ character ∈ blanks, isBlank character = true) :
    ')' ∉ blanks ∧ ']' ∉ blanks :=
  ⟨fun member => absurd (blank _ member) (by decide), fun member => absurd (blank _ member) (by decide)⟩

/-- An array keeps its value if the parenthesis that cuts it stands behind its closing bracket. -/
theorem arrays_kept {encoded : List Char} (closed : ']' ∈ trim encoded)
    (behind : ')' ∉ front (trim encoded)) :
    arrays? (trim (kept encoded)) = arrays? (trim encoded) := by
  obtain ⟨before, after, whole, blankBefore, -⟩ := trim_parts encoded
  obtain ⟨notIn, rest, parts⟩ := front_parts closed
  have start : ∀ c ∈ (front (trim encoded)).head?, isBlank c = false := by
    have trimmed := (is_trimmed_trim encoded).1
    rw [parts] at trimmed
    intro c isHead
    rw [List.head?_append, Option.mem_def.mp isHead] at trimmed
    simpa using trimmed
  obtain ⟨more, cut⟩ := trim_of_start (by decide : isBlank ']' = false) start (kept (rest ++ after))
  have keeps : kept encoded = before ++ (front (trim encoded) ++ ']' :: kept (rest ++ after)) := by
    have bracket : kept (']' :: (rest ++ after)) = ']' :: kept (rest ++ after) := rfl
    conv_lhs => rw [whole, parts, List.append_assoc, kept_append (no_closing_of_blank blankBefore).1,
      kept_append behind, List.cons_append, bracket]
  have same : trim (kept encoded) = front (trim encoded) ++ ']' :: more := by
    rw [keeps, trim_blank_append blankBefore, cut]
  refine arrays_congr fun name isName => array_congr (name_plain isName).1 ?_ ?_
  · rw [same, front_of_parts notIn]
  · rw [same]
    simp [closed]

/-- An array with a parenthesis among its items is cut within its brackets. -/
theorem array_cut {encoded inner : List Char} {name : String} (isName : name ∈ arrayNames)
    (own : array? name (trim encoded) = some inner) (among : ')' ∈ front (trim encoded)) :
    '[' ∈ trim (kept encoded) ∧ ']' ∉ trim (kept encoded) := by
  obtain ⟨before, after, whole, blankBefore, -⟩ := trim_parts encoded
  obtain ⟨-, noParenthesis, start⟩ := name_plain isName
  obtain ⟨-, closed, same⟩ := (array_front_iff (name_plain isName).1 _ _).mp own
  obtain ⟨notIn, rest, parts⟩ := front_parts closed
  rw [same] at among notIn parts
  have inItems : ')' ∈ inner := by simpa [noParenthesis] using among
  have plain : ')' ∉ name.toList ++ ['=', '['] := by simp [noParenthesis]
  have keeps : kept encoded = before ++ ((name.toList ++ ['=']) ++ '[' :: kept inner) := by
    have shape : encoded = before ++ ((name.toList ++ ['=', '[']) ++ (inner ++ ']' :: (rest ++ after))) := by
      conv_lhs => rw [whole, parts]
      simp
    rw [shape, kept_append (no_closing_of_blank blankBefore).1, kept_append plain, kept_of_mem inItems]
    simp
  have noBlank : ∀ c ∈ (name.toList ++ ['=']).head?, isBlank c = false := by
    intro c isHead
    cases letters : name.toList with
    | nil =>
        rw [letters] at isHead
        obtain rfl : c = '=' := by simpa [eq_comm] using isHead
        decide
    | cons first others =>
        rw [letters] at isHead start
        exact start c isHead
  obtain ⟨more, cut⟩ := trim_of_start (by decide : isBlank '[' = false) noBlank (kept inner)
  constructor
  · rw [keeps, trim_blank_append blankBefore, cut]
    simp
  · intro member
    have inKept := mem_of_mem_trim member
    rw [keeps] at inKept
    rcases List.mem_append.mp inKept with inBefore | inStart
    · exact (no_closing_of_blank blankBefore).2 inBefore
    · apply notIn
      have within {c : Char} (inCut : c ∈ kept inner) : c ∈ inner := (List.takeWhile_prefix _).subset inCut
      simp only [List.mem_append, List.mem_cons, List.not_mem_nil, or_false] at inStart ⊢
      rcases inStart with (inName | isEquals) | isOpening | inInner
      · exact .inl inName
      · exact .inr (.inl isEquals)
      · exact .inr (.inr (.inl isOpening))
      · exact .inr (.inr (.inr (within inInner)))

theorem read_kept {encoded : List Char} {value : Value} (recognized : recognized? (trim encoded) = some value)
    (isKept : IsKept (trim encoded)) : recognized? (trim (kept encoded)) = some value := by
  unfold recognized? at recognized ⊢
  cases found : arrays? (trim encoded) with
  | some array =>
      obtain ⟨⟨name, isName, inner, own⟩, -⟩ := array_of_arrays found
      obtain ⟨-, closed, -⟩ := (array_front_iff (name_plain isName).1 _ _).mp own
      rw [found] at recognized
      rw [arrays_kept closed isKept.2, found]
      exact recognized
  | none =>
      rw [found] at recognized
      have noEmpty : emptyArray? (trim encoded) = none := by rw [emptyArray?, if_neg isKept.1]
      rw [noEmpty] at recognized
      have noParenthesis : ')' ∉ encoded := by
        intro member
        obtain ⟨noTruth, noNumber⟩ :=
          no_scalar_of_bracket (by decide) (mem_trim_of_not_blank (by decide : isBlank ')' = false) member)
        rw [noTruth, noNumber] at recognized
        simp at recognized
      rw [kept_of_none noParenthesis, found, noEmpty]
      exact recognized

theorem read_cut {encoded : List Char} {value : Value} (recognized : recognized? (trim encoded) = some value)
    (notKept : ¬IsKept (trim encoded)) :
    recognized? (trim (kept encoded)) = none ∧ ∃ items, value = .list items := by
  cases found : arrays? (trim encoded) with
  | some array =>
      obtain ⟨⟨name, isName, inner, own⟩, items, rfl⟩ := array_of_arrays found
      have among : ')' ∈ front (trim encoded) := by
        by_contra behind
        refine notKept ⟨?_, behind⟩
        intro isEmpty
        have noArray : arrays? "numpy.array([])".toList = none := rfl
        rw [isEmpty, noArray] at found
        cases found
      obtain ⟨opened, notClosed⟩ := array_cut isName own among
      rw [recognized?, found] at recognized
      exact ⟨unrecognized_of_open opened notClosed, items, (Option.some.inj recognized).symm⟩
  | none =>
      by_cases isEmpty : trim encoded = "numpy.array([])".toList
      · obtain ⟨before, after, whole, blankBefore, -⟩ := trim_parts encoded
        have ends : kept "numpy.array([])".toList = "numpy.array([]".toList := by decide
        have cut : kept encoded = before ++ "numpy.array([]".toList := by
          rw [isEmpty] at whole
          rw [whole, kept_append (no_closing_of_blank blankBefore).1, kept_of_mem (by decide), ends]
        have same : trim (kept encoded) = "numpy.array([]".toList := by
          rw [cut, trim_blank_append blankBefore]
          rfl
        rw [isEmpty] at recognized
        exact ⟨same ▸ (rfl : recognized? "numpy.array([]".toList = none), [],
          (Option.some.inj recognized).symm⟩
      · have among : ')' ∈ front (trim encoded) := by
          by_contra behind
          exact notKept ⟨isEmpty, behind⟩
        have member : ')' ∈ trim encoded := (List.takeWhile_prefix _).subset among
        obtain ⟨noTruth, noNumber⟩ := no_scalar_of_bracket (by decide) member
        rw [recognized?, found, noTruth, noNumber, emptyArray?, if_neg isEmpty] at recognized
        simp at recognized

/-! ## Markers -/

def markerLine (encoded : List Char) : List Char := defaultMarker ++ ' ' :: '(' :: (encoded ++ [')'])

theorem marker_is_default (encoded : List Char) : isDefaultLine (markerLine encoded) = true := by
  have lowered : lower (markerLine encoded) =
      defaultMarker ++ lowerAfter defaultMarker.reverse (' ' :: '(' :: (encoded ++ [')'])) :=
    lower_after_append [] defaultMarker _
  rw [isDefaultLine, lowered]
  exact occurs_prefix _ _

theorem declared_of_marker {encoded : List Char} (nonempty : kept encoded ≠ []) :
    declared? (markerLine encoded) = some (kept encoded) := by
  have cut : (encoded ++ [')']).takeWhile (· ≠ ')') = kept encoded := by
    change kept (encoded ++ [')']) = kept encoded
    by_cases member : ')' ∈ encoded
    · exact kept_of_mem member _
    · rw [kept_append member, kept_of_none member]
      exact List.append_nil encoded
  have shorter : (kept encoded).length ≤ encoded.length := (List.takeWhile_prefix _).length_le
  have behind : afterStart? defaultMarker (markerLine encoded) = some (' ' :: '(' :: (encoded ++ [')'])) :=
    (after_start_iff _ _ _).mpr rfl
  have opened : afterStart? ['('] (trimStart (' ' :: '(' :: (encoded ++ [')']))) =
      some (encoded ++ [')']) := rfl
  have filled : (kept encoded).isEmpty = false := List.isEmpty_eq_false_iff.mpr nonempty
  have here : declaredHere? (markerLine encoded) = some (kept encoded) := by
    rw [declaredHere?, behind]
    simp only [Option.bind_eq_bind, Option.bind_some, opened, cut, filled, List.length_append,
      List.length_singleton, Bool.false_or, decide_eq_true_eq]
    rw [if_neg (by omega)]
  obtain ⟨first, rest, line⟩ := List.exists_cons_of_ne_nil (by simp [markerLine] : markerLine encoded ≠ [])
  rw [line] at here ⊢
  rw [declared?, here]
  rfl

theorem kept_ne_nil {encoded : List Char} {value : Value}
    (recognized : recognized? (trim encoded) = some value) : kept encoded ≠ [] := by
  intro empty
  cases encoded with
  | nil => cases recognized
  | cons first rest =>
      obtain rfl : first = ')' := by
        by_contra other
        simp [kept, other] at empty
      obtain ⟨more, same⟩ := @trim_of_start [] ')' (by decide) (by simp) rest
      obtain ⟨noTruth, noNumber⟩ := @no_scalar_of_bracket (')' :: more) ')' (by decide) (.head _)
      rw [List.nil_append, List.nil_append] at same
      rw [same, recognized?, noTruth, noNumber] at recognized
      cases recognized

/-- The last default of a parameter counts, whatever stands in front of it, and whatever stands behind it
declares none. -/
theorem default_of_last {encoded : List Char} (nonempty : kept encoded ≠ []) (before : List (List Char))
    {after : List (List Char)} (last : ∀ line ∈ after, isDefaultLine line = true → declared? line = none) :
    (ParameterDoc.ofLines (before ++ markerLine encoded :: after)).default =
      some (readDefault (kept encoded)) := by
  have none : (after.filter isDefaultLine).filterMap declared? = [] :=
    List.filterMap_eq_nil_iff.mpr fun line member =>
      last line (List.mem_of_mem_filter member) (List.of_mem_filter member)
  simp only [ParameterDoc.ofLines, List.filter_append, List.filter_cons_of_pos (marker_is_default encoded),
    List.filterMap_append, List.filterMap_cons_some (declared_of_marker nonempty), none, List.getLast?_concat,
    Option.map_some]

/-- A recognized encoding behind the last marker of a parameter is its default if the marker keeps it.
Otherwise the default is the text of what is left of it. -/
theorem default_of_marker {encoded : List Char} (recognized : (recognized? (trim encoded)).isSome = true)
    (before : List (List Char)) {after : List (List Char)}
    (last : ∀ line ∈ after, isDefaultLine line = true → declared? line = none) :
    ((ParameterDoc.ofLines (before ++ markerLine encoded :: after)).default = some (readDefault encoded) ↔
        IsKept (trim encoded)) ∧
      (¬IsKept (trim encoded) →
        (ParameterDoc.ofLines (before ++ markerLine encoded :: after)).default =
          some (.str (String.ofList (stripQuotes (trim (kept encoded)))))) := by
  obtain ⟨value, found⟩ := Option.isSome_iff_exists.mp recognized
  have whole : readDefault encoded = value := by rw [read_default_eq, found, Option.getD_some]
  rw [default_of_last (kept_ne_nil found) before last, whole, Option.some.injEq, read_default_eq]
  by_cases isKept : IsKept (trim encoded)
  · rw [read_kept found isKept]
    exact ⟨⟨fun _ => isKept, fun _ => rfl⟩, fun notKept => absurd isKept notKept⟩
  · obtain ⟨unread, items, rfl⟩ := read_cut found isKept
    rw [unread]
    exact ⟨⟨fun same => by simp at same, fun kept => absurd kept isKept⟩, fun _ => rfl⟩

/-- A parenthesis behind an array does not matter; the one that ends an empty array of numbers does. -/
theorem default_of_marker_of_arrays :
    (recognized? (trim " intArray=[1, 2] (all)".toList)).isSome = true ∧
      (recognized? (trim "numpy.array([])".toList)).isSome = true ∧
      (∀ line ∈ ["default: none".toList], isDefaultLine line = true → declared? line = none) ∧
      IsKept (trim " intArray=[1, 2] (all)".toList) ∧ ¬IsKept (trim "numpy.array([])".toList) ∧
      (ParameterDoc.ofLines (["default: (1)".toList] ++
          markerLine " intArray=[1, 2] (all)".toList :: ["default: none".toList])).default =
        some (readDefault " intArray=[1, 2] (all)".toList) ∧
      readDefault "numpy.array([])".toList = .list [] ∧
      (ParameterDoc.ofLines ([] ++ markerLine "numpy.array([])".toList :: [])).default =
        some (.str "numpy.array([]") := by
  have array : (recognized? (trim " intArray=[1, 2] (all)".toList)).isSome = true := rfl
  have empty : (recognized? (trim "numpy.array([])".toList)).isSome = true := rfl
  have later : ∀ line ∈ ["default: none".toList], isDefaultLine line = true → declared? line = none := by
    decide
  have isKept : IsKept (trim " intArray=[1, 2] (all)".toList) := ⟨by decide, by decide⟩
  have notKept : ¬IsKept (trim "numpy.array([])".toList) := fun isKept => isKept.1 rfl
  exact ⟨array, empty, later, isKept, notKept,
    (default_of_marker array ["default: (1)".toList] later).1.mpr isKept, rfl,
    (default_of_marker empty [] (List.forall_mem_nil _)).2 notKept⟩

end TaskCab.Docstring
