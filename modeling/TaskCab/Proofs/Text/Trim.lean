import Mathlib.Data.List.TakeWhile
import TaskCab.Text.Blank

/-!
# Trimming

A text without a blank at either end is its own trimmed form.
-/

namespace TaskCab.Text

theorem code_of_digit {character : Char} (isDigit : character.isDigit = true) :
    48 ≤ character.toNat ∧ character.toNat ≤ 57 := by
  simp only [Char.isDigit, Bool.and_eq_true, decide_eq_true_eq, UInt32.le_iff_toNat_le] at isDigit
  exact isDigit

/-- Whether a character is a printed one of ASCII, and so neither blank nor a mark of the byte order. -/
def IsGraphic (character : Char) : Prop := 0x21 ≤ character.toNat ∧ character.toNat ≤ 0x7e

instance : DecidablePred IsGraphic :=
  fun character => inferInstanceAs (Decidable (0x21 ≤ character.toNat ∧ character.toNat ≤ 0x7e))

theorem not_blank_of_is_graphic {character : Char} (graphic : IsGraphic character) :
    isBlank character = false := by
  obtain ⟨lower, upper⟩ := graphic
  simp only [isBlank, Bool.or_eq_false_iff, decide_eq_false_iff_not, beq_eq_false_iff_ne]
  omega

theorem trim_end_concat {last : Char} (notBlank : isBlank last = false) (text : List Char) :
    trimEnd (text ++ [last]) = text ++ [last] := by
  simp [trimEnd, notBlank]

theorem trim_end_prefix (text : List Char) : trimEnd text <+: text := by
  have suffix : text.reverse.dropWhile isBlank <:+ text.reverse := List.dropWhile_suffix isBlank
  have reversed := List.reverse_prefix.mpr suffix
  rwa [List.reverse_reverse] at reversed

theorem trim_end_of_last {text : List Char} (ends : text.getLast?.any isBlank = false) :
    trimEnd text = text := by
  rw [← List.head?_reverse] at ends
  rw [trimEnd]
  cases back : text.reverse with
  | nil => exact (List.reverse_eq_nil_iff.mp back).symm
  | cons last front =>
      rw [back] at ends
      rw [List.dropWhile_cons_of_neg (by simpa using ends), ← back, List.reverse_reverse]

def Framed (text : List Char) : Prop :=
  (∃ first ∈ text.head?, IsGraphic first) ∧ ∃ last ∈ text.getLast?, IsGraphic last

theorem trim_of_ends {text : List Char} {first last : Char} (atHead : first ∈ text.head?)
    (notBlankFirst : isBlank first = false) (atEnd : last ∈ text.getLast?)
    (notBlankLast : isBlank last = false) : trim text = text := by
  have start : trimStart text = text := by
    cases text with
    | nil => rfl
    | cons character rest =>
        obtain rfl : character = first := by simpa using atHead
        rw [trimStart, List.dropWhile_cons_of_neg (by simp [notBlankFirst])]
  have ends : text.getLast?.any isBlank = false := by
    rw [Option.mem_def.mp atEnd]
    simpa using notBlankLast
  rw [trim, start, trim_end_of_last ends]

def IsTrimmed (text : List Char) : Prop :=
  text.head?.any isBlank = false ∧ text.getLast?.any isBlank = false

instance (text : List Char) : Decidable (IsTrimmed text) := inferInstanceAs (Decidable (_ ∧ _))

theorem trim_of_is_trimmed {text : List Char} (trimmed : IsTrimmed text) : trim text = text := by
  cases text with
  | nil => rfl
  | cons first rest =>
      have atEnd := List.getLast?_eq_some_getLast (List.cons_ne_nil first rest)
      have notBlankLast := trimmed.2
      rw [atEnd, Option.any_some] at notBlankLast
      exact trim_of_ends rfl trimmed.1 atEnd notBlankLast

theorem trim_of_framed {text : List Char} (framed : Framed text) : trim text = text := by
  obtain ⟨⟨first, atHead, graphicFirst⟩, last, atEnd, graphicLast⟩ := framed
  exact trim_of_ends atHead (not_blank_of_is_graphic graphicFirst) atEnd
    (not_blank_of_is_graphic graphicLast)

theorem framed_of_graphic {text : List Char} (nonempty : text ≠ [])
    (graphic : ∀ character ∈ text, IsGraphic character) : Framed text :=
  ⟨⟨text.head nonempty, List.head?_eq_some_head nonempty, graphic _ (List.head_mem nonempty)⟩,
    text.getLast nonempty, List.getLast?_eq_some_getLast nonempty,
    graphic _ (List.getLast_mem nonempty)⟩

theorem framed_between {first last : Char} (graphicFirst : IsGraphic first)
    (graphicLast : IsGraphic last) (text : List Char) : Framed (first :: (text ++ [last])) :=
  ⟨⟨first, rfl, graphicFirst⟩, last, by rw [← List.cons_append, List.getLast?_concat]; rfl,
    graphicLast⟩

theorem length_trim_le (text : List Char) : (trim text).length ≤ text.length := by
  have start : (trimStart text).length ≤ text.length := (List.dropWhile_sublist _).length_le
  have back := (@List.dropWhile_sublist _ (trimStart text).reverse isBlank).length_le
  rw [trim, trimEnd, List.length_reverse]
  rw [List.length_reverse] at back
  omega

/-- A text is its trimmed form between two runs of blanks. -/
theorem trim_parts (text : List Char) :
    ∃ before after, text = before ++ (trim text ++ after) ∧
      (∀ character ∈ before, isBlank character = true) ∧
        ∀ character ∈ after, isBlank character = true := by
  refine ⟨text.takeWhile isBlank, ((trimStart text).reverse.takeWhile isBlank).reverse, ?_, ?_, ?_⟩
  · have back : (trimStart text).reverse.takeWhile isBlank ++ (trimStart text).reverse.dropWhile isBlank =
        (trimStart text).reverse := List.takeWhile_append_dropWhile
    have start := congrArg List.reverse back
    rw [List.reverse_append, List.reverse_reverse] at start
    rw [trim, trimEnd, start, trimStart, List.takeWhile_append_dropWhile]
  · intro character member
    exact List.mem_takeWhile_imp member
  · intro character member
    exact List.mem_takeWhile_imp (List.mem_reverse.mp member)

theorem trim_blank_append {blanks : List Char} (blank : ∀ character ∈ blanks, isBlank character = true)
    (text : List Char) : trim (blanks ++ text) = trim text := by
  rw [trim, trim, trimStart, trimStart, List.dropWhile_append_of_pos blank]

theorem trim_append_blank {blanks : List Char} (blank : ∀ character ∈ blanks, isBlank character = true)
    (text : List Char) : trim (text ++ blanks) = trim text := by
  have ends : ∀ front, trimEnd (front ++ blanks) = trimEnd front := by
    intro front
    rw [trimEnd, trimEnd, List.reverse_append, List.dropWhile_append_of_pos fun character member =>
      blank character (List.mem_reverse.mp member)]
  rw [trim, trim, trimStart, trimStart, List.dropWhile_append]
  split
  next none =>
    rw [List.isEmpty_iff.mp none, List.dropWhile_eq_nil_iff.mpr blank]
  next => exact ends _

theorem mem_of_mem_trim {text : List Char} {character : Char} (member : character ∈ trim text) :
    character ∈ text := by
  obtain ⟨before, after, whole, -, -⟩ := trim_parts text
  rw [whole]
  simp [member]

theorem mem_trim_of_not_blank {text : List Char} {character : Char} (notBlank : isBlank character = false)
    (member : character ∈ text) : character ∈ trim text := by
  obtain ⟨before, after, whole, blankBefore, blankAfter⟩ := trim_parts text
  rw [whole, List.mem_append, List.mem_append] at member
  rcases member with inBefore | inText | inAfter
  · simp [blankBefore _ inBefore] at notBlank
  · exact inText
  · simp [blankAfter _ inAfter] at notBlank

theorem trim_between {before text after : List Char} (framed : Framed text)
    (blankBefore : ∀ character ∈ before, isBlank character = true)
    (blankAfter : ∀ character ∈ after, isBlank character = true) :
    trim (before ++ (text ++ after)) = text := by
  obtain ⟨⟨first, atHead, graphicFirst⟩, last, atEnd, graphicLast⟩ := framed
  have start : trimStart (before ++ (text ++ after)) = text ++ after := by
    rw [trimStart, List.dropWhile_append_of_pos blankBefore]
    cases text with
    | nil => simp at atHead
    | cons character rest =>
        obtain rfl : character = first := by simpa using atHead
        rw [List.cons_append,
          List.dropWhile_cons_of_neg (by simp [not_blank_of_is_graphic graphicFirst])]
  have reversed : text.reverse.head? = some last := by rw [List.head?_reverse]; exact atEnd
  rw [trim, start, trimEnd, List.reverse_append, List.dropWhile_append_of_pos fun character member =>
    blankAfter character (List.mem_reverse.mp member)]
  cases back : text.reverse with
  | nil => simp [back] at reversed
  | cons character rest =>
      obtain rfl : character = last := by simpa [back] using reversed
      rw [List.dropWhile_cons_of_neg (by simp [not_blank_of_is_graphic graphicLast]), ← back,
        List.reverse_reverse]

theorem trim_of_start {start : List Char} {last : Char} (notBlankLast : isBlank last = false)
    (notBlank : ∀ character ∈ start.head?, isBlank character = false) (rest : List Char) :
    ∃ more, trim (start ++ last :: rest) = start ++ last :: more := by
  have front : trimStart (start ++ last :: rest) = start ++ last :: rest := by
    cases start with
    | nil => exact List.dropWhile_cons_of_neg (by simp [notBlankLast])
    | cons first start =>
        exact List.dropWhile_cons_of_neg (by simp [notBlank first rfl])
  rw [trim, front, trimEnd, List.reverse_append, List.reverse_cons, List.append_assoc,
    List.dropWhile_append]
  split
  · refine ⟨[], ?_⟩
    rw [List.singleton_append, List.dropWhile_cons_of_neg (by simp [notBlankLast])]
    simp
  · exact ⟨(rest.reverse.dropWhile isBlank).reverse, by simp⟩

theorem not_blank_of_trim_end {text : List Char} {last : Char} (isLast : (trim text).getLast? = some last) :
    isBlank last = false := by
  rw [trim, trimEnd, List.getLast?_reverse] at isLast
  have stop := List.head?_dropWhile_not isBlank (trimStart text).reverse
  rw [isLast] at stop
  simpa using stop

theorem is_trimmed_trim (text : List Char) : IsTrimmed (trim text) := by
  constructor
  · have start := List.head?_dropWhile_not isBlank text
    obtain ⟨dropped, whole⟩ := trim_end_prefix (trimStart text)
    cases trimmed : trim text with
    | nil => rfl
    | cons first rest =>
        rw [trim] at trimmed
        rw [trimmed, trimStart] at whole
        rw [← whole] at start
        simpa using start
  · cases last : (trim text).getLast? with
    | none => rfl
    | some character => exact not_blank_of_trim_end last

theorem trim_trim (text : List Char) : trim (trim text) = trim text :=
  trim_of_is_trimmed (is_trimmed_trim text)

/-- Lowering changes capital ASCII letters and nothing else. -/
theorem to_lower_cases (character : Char) : character.toLower = character ∨
    65 ≤ character.toNat ∧ character.toNat ≤ 90 ∧ character.toLower.toNat = character.toNat + 32 := by
  by_cases upper : character.val ≥ 'A'.val ∧ character.val ≤ 'Z'.val
  · have first : 65 ≤ character.toNat := UInt32.le_iff_toNat_le.mp upper.1
    have last : character.toNat ≤ 90 := UInt32.le_iff_toNat_le.mp upper.2
    refine .inr ⟨first, last, ?_⟩
    unfold Char.toLower
    rw [dif_pos upper]
    change (character.val + 32).toNat = character.toNat + 32
    rw [UInt32.toNat_add]
    change (character.toNat + 32) % 2 ^ 32 = character.toNat + 32
    omega
  · left
    unfold Char.toLower
    rw [dif_neg upper]

theorem to_lower_of_digit {character : Char} (isDigit : character.isDigit = true) :
    character.toLower = character := by
  rcases to_lower_cases character with same | ⟨capital, -, -⟩
  · exact same
  · have upper := (code_of_digit isDigit).2
    omega

theorem is_blank_to_lower (character : Char) : isBlank character.toLower = isBlank character := by
  rcases to_lower_cases character with same | ⟨first, last, lowered⟩
  · rw [same]
  · have graphic : IsGraphic character := ⟨by omega, by omega⟩
    have graphicLowered : IsGraphic character.toLower := ⟨by omega, by omega⟩
    rw [not_blank_of_is_graphic graphic, not_blank_of_is_graphic graphicLowered]

end TaskCab.Text
