import TaskCab.Proofs.Text.Trim
import TaskCab.Proofs.Yaml.QuotedScalar
import TaskCab.Yaml.Printer

/-!
# The forms of scalars

A scalar is quoted, or plain without a colon in front of a space. So a key, which is a scalar and a colon,
can be told from what is written after it.
-/

namespace TaskCab.Yaml

open TaskCab.Text

structure IsPlain (text : List Char) : Prop where
  oneLine : '\n' ∉ text
  start : ∀ character ∈ text.head?, character ≠ '"' ∧ character ≠ '\'' ∧ character ≠ ' '
  noDash : ∀ rest, text ≠ '-' :: ' ' :: rest
  noColon : ∀ before after, text ≠ before ++ ':' :: ' ' :: after

inductive ScalarForm : List Char → Prop
  | double (body : List Char) (closed : ClosedDouble body) (oneLine : '\n' ∉ body) :
      ScalarForm ('"' :: (body ++ ['"']))
  | single (body : List Char) (closed : ClosedSingle body) (oneLine : '\n' ∉ body) :
      ScalarForm ('\'' :: (body ++ ['\'']))
  | plain (text : List Char) (isPlain : IsPlain text) : ScalarForm text

private theorem no_newline_flat_map {escape : Char → List Char} {text : List Char}
    (oneLine : ∀ character ∈ text, '\n' ∉ escape character) : '\n' ∉ text.flatMap escape := by
  intro member
  obtain ⟨character, inside, within⟩ := List.mem_flatMap.mp member
  exact oneLine character inside within

theorem escaped_text_form {escape : Char → List Char} {text : List Char}
    (forms : ∀ character ∈ text, EscapeForm character (escape character)) :
    ScalarForm ('"' :: (text.flatMap escape ++ ['"'])) := by
  apply ScalarForm.double
  · exact closed_double_flat_map fun character member => is_piece_of_form (forms character member)
  · apply no_newline_flat_map
    intro character member
    exact (is_piece_of_form (forms character member)).oneLine

theorem double_quoted_form (text : List Char) : ScalarForm (doubleQuoted text) :=
  escaped_text_form fun character _ => escape_char_cases character

theorem closed_single_flat_map (text : List Char) :
    ClosedSingle (text.flatMap fun c => if c = '\'' then ['\'', '\''] else [c]) := by
  induction text with
  | nil => trivial
  | cons character rest ih =>
      rw [List.flatMap_cons]
      by_cases quote : character = '\''
      · rw [if_pos quote]
        exact ih
      · rw [if_neg quote]
        exact (closed_single_ordinary quote _).mpr ih

theorem single_quoted_form {text : List Char} (oneLine : '\n' ∉ text) :
    ScalarForm (singleQuoted text) := by
  apply ScalarForm.single
  · exact closed_single_flat_map text
  · apply no_newline_flat_map
    intro character member
    split
    · decide
    · intro same
      rw [List.mem_singleton.mp same] at oneLine
      exact oneLine member

theorem inner_mark_of_colon (before after : List Char) :
    hasInnerMark (before ++ ':' :: ' ' :: after) = true := by
  induction before with
  | nil => simp [hasInnerMark, endsOrSpaced]
  | cons character rest ih => simp [hasInnerMark, ih]

/-- A text without marks is plain, and stays so when blanks at its end are dropped. -/
theorem is_plain_trim_end {text : List Char} (oneLine : '\n' ∉ text)
    (noMarks : hasMarks text = false) : IsPlain (trimEnd text) := by
  obtain ⟨dropped, whole⟩ := trim_end_prefix text
  cases text with
  | nil => simp [hasMarks] at noMarks
  | cons first rest =>
      simp only [hasMarks, Bool.or_eq_false_iff] at noMarks
      obtain ⟨⟨⟨⟨⟨notSpace, -⟩, -⟩, notMark⟩, notIndicator⟩, noInner⟩ := noMarks
      constructor
      · intro member
        apply oneLine
        rw [← whole]
        exact List.mem_append_left _ member
      · intro character atHead
        have same : character = first := by
          cases trimmed : trimEnd (first :: rest) with
          | nil => simp [trimmed] at atHead
          | cons other more =>
              rw [trimmed] at atHead whole
              obtain rfl : other = character := by simpa using atHead
              exact (List.cons.inj whole).1
        rw [same]
        refine ⟨?_, ?_, by simpa using notSpace⟩
        · rintro rfl
          simp at notMark
        · rintro rfl
          simp at notMark
      · intro more same
        rw [same] at whole
        obtain ⟨rfl, later⟩ := List.cons.inj whole
        simp [← later, endsOrSpaced] at notIndicator
      · intro before after same
        rw [same, List.append_assoc] at whole
        have inner := inner_mark_of_colon before (after ++ dropped)
        rw [← whole] at noInner
        simp only [List.cons_append] at noInner
        rw [inner] at noInner
        exact absurd noInner (by decide)

theorem no_marks_of_plain {text : List Char} (plain : styleOf text = .plain) :
    hasMarks text = false := by
  unfold styleOf at plain
  split at plain
  · simp at plain
  split at plain
  · simp at plain
  split at plain
  · simp at plain
  next marks =>
    rw [Bool.or_eq_true, not_or] at marks
    exact Bool.eq_false_iff.mpr marks.1

/-- Whether a text is written plain. A text with blanks at its end is not asked for the older version. -/
structure WrittenPlain (text : List Char) : Prop where
  bare : text.any needsEscape = false
  plain : styleOf text = .plain
  notOld : trimEnd text = text → isOldScalar text = false

theorem no_newline_of_bare {text : List Char} (bare : text.any needsEscape = false) : '\n' ∉ text := by
  intro member
  have escaped := List.any_eq_false.mp bare '\n' member
  exact escaped (by decide)

theorem written_is_plain {text : List Char} (written : WrittenPlain text) : IsPlain (trimEnd text) :=
  is_plain_trim_end (no_newline_of_bare written.bare) (no_marks_of_plain written.plain)

theorem quoted_ne_self {quote : Char} {write : Char → List Char} {text : List Char}
    (nonempty : ∀ character ∈ text, write character ≠ []) :
    quote :: (text.flatMap write ++ [quote]) ≠ text := by
  intro same
  have longer : text.length ≤ (text.flatMap write).length := by
    clear same
    induction text with
    | nil => exact Nat.le_refl 0
    | cons character rest ih =>
        obtain ⟨first, later⟩ := List.forall_mem_cons.mp nonempty
        have positive := List.length_pos_iff.mpr first
        have shorter := ih later
        rw [List.flatMap_cons, List.length_append, List.length_cons]
        omega
  have lengths := congrArg List.length same
  simp only [List.length_cons, List.length_append, List.length_nil] at lengths
  omega

/-- A text is written between double quotes, between single ones, or plain up to the blanks at its end. -/
theorem scalar_cases (text : List Char) :
    (∃ escape, (∀ character ∈ text, EscapeForm character (escape character)) ∧
      scalar text = '"' :: (text.flatMap escape ++ ['"'])) ∨
    (text.any needsEscape = false ∧ scalar text = singleQuoted text) ∨
    (WrittenPlain text ∧ scalar text = trimEnd text) := by
  unfold scalar
  split
  · exact .inl ⟨escapeChar, fun character _ => escape_char_cases character, rfl⟩
  next escape =>
    have bare : text.any needsEscape = false := Bool.eq_false_iff.mpr escape
    unfold plainOrQuoted
    split
    next plain =>
      dsimp only
      split
      · exact .inr (.inl ⟨bare, rfl⟩)
      next kept =>
        refine .inr (.inr ⟨⟨bare, plain, fun whole => ?_⟩, rfl⟩)
        rw [Bool.and_eq_true, not_and, decide_eq_true_eq] at kept
        exact Bool.eq_false_iff.mpr (kept whole)
    next =>
      refine .inr (.inl ⟨bare, ?_⟩)
      rw [singleQuoted, trim_end_concat (by decide)]
      exact ite_self _
    next =>
      have forms : ∀ character ∈ text, EscapeForm character (escaped character) := by
        intro character member
        exact escaped_cases (by simpa using List.any_eq_false.mp bare character member)
      have different := @quoted_ne_self '"' escaped text fun character member =>
        escape_form_ne_nil (forms character member)
      refine .inl ⟨escaped, forms, ?_⟩
      rw [trim_end_concat (by decide), if_neg (by simp [different])]
      rfl

theorem scalar_form (text : List Char) : ScalarForm (scalar text) := by
  rcases scalar_cases text with ⟨escape, forms, written⟩ | ⟨bare, written⟩ | ⟨plain, written⟩
  · rw [written]
    exact escaped_text_form forms
  · rw [written]
    exact single_quoted_form (no_newline_of_bare bare)
  · rw [written]
    exact .plain _ (written_is_plain plain)

/-- What stands after the colon of a key: nothing, or a space and a value. -/
def IsTail (tail : List Char) : Prop := tail = [] ∨ ∃ value, tail = ' ' :: value

theorem plain_ends {left right after before : List Char}
    (noColon : ∀ first last, left ≠ first ++ ':' :: ' ' :: last)
    (noOther : ∀ first last, right ≠ first ++ ':' :: ' ' :: last) (isTail : IsTail after)
    (isOther : IsTail before) (same : left ++ ':' :: after = right ++ ':' :: before) :
    left = right ∧ after = before := by
  induction left generalizing right with
  | nil =>
      cases right with
      | nil => simpa using same
      | cons character rest =>
          obtain ⟨rfl, later⟩ := List.cons.inj same
          rcases isTail with rfl | ⟨value, rfl⟩
          · simp at later
          · cases rest with
            | nil => simp at later
            | cons other more =>
                obtain ⟨rfl, -⟩ := List.cons.inj later
                exact absurd rfl (noOther [] more)
  | cons character rest ih =>
      cases right with
      | nil =>
          obtain ⟨rfl, later⟩ := List.cons.inj same
          rcases isOther with rfl | ⟨value, rfl⟩
          · simp at later
          · cases rest with
            | nil => simp at later
            | cons other more =>
                obtain ⟨rfl, -⟩ := List.cons.inj later
                exact absurd rfl (noColon [] more)
      | cons other more =>
          obtain ⟨rfl, later⟩ := List.cons.inj same
          have shorter : ∀ first last, rest ≠ first ++ ':' :: ' ' :: last := by
            rintro first last rfl
            exact noColon (character :: first) last rfl
          have shorterOther : ∀ first last, more ≠ first ++ ':' :: ' ' :: last := by
            rintro first last rfl
            exact noOther (character :: first) last rfl
          obtain ⟨rfl, ends⟩ := ih shorter shorterOther later
          exact ⟨rfl, ends⟩

theorem plain_not_quoted {text after rest : List Char} (isPlain : IsPlain text) {quote : Char}
    (isQuote : quote = '"' ∨ quote = '\'') : text ++ ':' :: after ≠ quote :: rest := by
  intro same
  cases text with
  | nil =>
      obtain ⟨rfl, -⟩ := List.cons.inj same
      simp at isQuote
  | cons first more =>
      obtain ⟨rfl, -⟩ := List.cons.inj same
      obtain ⟨notDouble, notSingle, -⟩ := isPlain.start first rfl
      exact isQuote.elim notDouble notSingle

/-- A key can be told from what is written after its colon. -/
theorem key_ends {left right after before : List Char} (leftForm : ScalarForm left)
    (rightForm : ScalarForm right) (isTail : IsTail after) (isOther : IsTail before)
    (same : left ++ ':' :: after = right ++ ':' :: before) : left = right ∧ after = before := by
  cases leftForm with
  | double body closed oneLine =>
      cases rightForm with
      | double other closedOther _ =>
          simp only [List.cons_append, List.append_assoc, List.nil_append, List.cons.injEq,
            true_and] at same
          obtain ⟨rfl, ends⟩ := double_ends closed closedOther same
          exact ⟨rfl, (List.cons.inj ends).2⟩
      | single other closedOther _ => simp at same
      | plain _ isPlain => exact absurd same.symm (plain_not_quoted isPlain (.inl rfl))
  | single body closed oneLine =>
      cases rightForm with
      | double other closedOther _ => simp at same
      | single other closedOther _ =>
          simp only [List.cons_append, List.append_assoc, List.nil_append, List.cons.injEq,
            true_and] at same
          obtain ⟨rfl, ends⟩ := single_ends closed closedOther (by simp) (by simp) same
          exact ⟨rfl, (List.cons.inj ends).2⟩
      | plain _ isPlain => exact absurd same.symm (plain_not_quoted isPlain (.inr rfl))
  | plain _ isPlain =>
      cases rightForm with
      | double other closedOther _ => exact absurd same (plain_not_quoted isPlain (.inl rfl))
      | single other closedOther _ => exact absurd same (plain_not_quoted isPlain (.inr rfl))
      | plain _ isOtherPlain =>
          exact plain_ends isPlain.noColon isOtherPlain.noColon isTail isOther same

theorem scalar_no_newline {text : List Char} (form : ScalarForm text) : '\n' ∉ text := by
  cases form with
  | double body closed oneLine => simpa using oneLine
  | single body closed oneLine => simpa using oneLine
  | plain _ isPlain => exact isPlain.oneLine

theorem key_start {text : List Char} (form : ScalarForm text) (tail : List Char) :
    (∃ first rest, text ++ ':' :: tail = first :: rest ∧ first ≠ ' ') ∧
      text ++ ':' :: tail ≠ ['-'] ∧ ∀ rest, text ++ ':' :: tail ≠ '-' :: ' ' :: rest := by
  cases form with
  | double body closed oneLine => exact ⟨⟨'"', _, rfl, by decide⟩, by simp, by simp⟩
  | single body closed oneLine => exact ⟨⟨'\'', _, rfl, by decide⟩, by simp, by simp⟩
  | plain _ isPlain =>
      match text with
      | [] => exact ⟨⟨':', tail, rfl, by decide⟩, by simp, by simp⟩
      | [first] =>
          refine ⟨⟨first, _, rfl, (isPlain.start first rfl).2.2⟩, by simp, by simp⟩
      | first :: second :: rest =>
          refine ⟨⟨first, _, rfl, (isPlain.start first rfl).2.2⟩, by simp, ?_⟩
          intro more same
          obtain ⟨rfl, later⟩ := List.cons.inj same
          obtain ⟨rfl, -⟩ := List.cons.inj later
          exact isPlain.noDash rest rfl

end TaskCab.Yaml
