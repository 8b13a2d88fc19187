import Mathlib.Data.List.TakeWhile
import TaskCab.Proofs.Source.CompactTwice
import TaskCab.Proofs.Source.LiteralBody
import TaskCab.Proofs.Text.Runs

/-!
# The signs and literals of a text

Without its blanks and comments a text is a row of signs and string literals. A literal goes from a mark
outside comments up to the quote that closes it, which is the mark again, or three of it behind three marks; a
backslash takes the character behind it along. A literal that is never closed takes up the rest of the text.
-/

namespace TaskCab.Source.Compact

open TaskCab.Text

/-- The number of characters up to the end of a closing quote. The flag says whether the first one belongs
to a backslash in front of it. -/
def closing? (quote : List Char) : Bool → List Char → Option Nat
  | _, [] => none
  | true, _ :: rest => (closing? quote false rest).map (· + 1)
  | false, character :: rest =>
      if character = '\\' then (closing? quote true rest).map (· + 1)
      else if quote.isPrefixOf (character :: rest) then some quote.length
      else (closing? quote false rest).map (· + 1)

def literalLength? (mark : Char) (rest : List Char) : Option Nat :=
  let quote := Quoted.quotation mark ([mark, mark].isPrefixOf rest)
  (closing? quote false ((mark :: rest).drop quote.length)).map (· + quote.length)

/-- What stands in a text besides blanks and comments. -/
inductive Stretch where
  | sign (character : Char)
  | literal (text : List Char)
  | unclosed
deriving DecidableEq

def Stretch.literal? : Stretch → Option (List Char)
  | .literal text => some text
  | .sign _ | .unclosed => none

/-- The signs and literals behind as many characters as are already spoken for. -/
def stretchesFrom : Nat → List Char → List Stretch
  | _, [] => []
  | skip + 1, _ :: rest => stretchesFrom skip rest
  | 0, character :: rest =>
      if isBlank character then stretchesFrom 0 rest
      else if character = '#' then stretchesFrom (rest.takeWhile (· ≠ '\n')).length rest
      else if isMark character then
        match literalLength? character rest with
        | some length => .literal ((character :: rest).take length) :: stretchesFrom (length - 1) rest
        | none => [.unclosed]
      else .sign character :: stretchesFrom 0 rest

def stretches (text : List Char) : List Stretch := stretchesFrom 0 text

def literals (text : List Char) : List (List Char) := (stretches text).filterMap Stretch.literal?

/-- Whether something other than blanks and comments stands between any two commas outside literals. -/
def CommasApart (text : List Char) : Prop :=
  (stretches text).IsChain fun left right => ¬(left = .sign ',' ∧ right = .sign ',')

instance : DecidablePred CommasApart :=
  fun text => inferInstanceAs (Decidable (List.IsChain _ (stretches text)))

/-! ## Closing quotes -/

variable {quote : List Char} {escaped : Bool} {mark : Char}

theorem closing_bounds {text : List Char} {length : Nat} (found : closing? quote escaped text = some length) :
    quote.length ≤ length ∧ length ≤ text.length := by
  induction text generalizing escaped length with
  | nil => simp [closing?] at found
  | cons character rest ih =>
      have later {flag : Bool} (found : (closing? quote flag rest).map (· + 1) = some length) :
          quote.length ≤ length ∧ length ≤ (character :: rest).length := by
        obtain ⟨inner, foundRest, rfl⟩ := Option.map_eq_some_iff.mp found
        have bounds := ih foundRest
        rw [List.length_cons]
        omega
      cases escaped with
      | true => exact later found
      | false =>
          rw [closing?] at found
          split at found
          next => exact later found
          next =>
          split at found
          next isQuote =>
            obtain rfl := Option.some.inj found
            exact ⟨Nat.le_refl _, (List.isPrefixOf_iff_prefix.mp isQuote).length_le⟩
          next => exact later found

/-- A literal that is closed is closed at the same place, whatever comes after it. -/
theorem closing_append {body after : List Char}
    (found : closing? quote escaped (body ++ after) = some body.length) (nonempty : quote ≠ [])
    (other : List Char) :
    closing? quote escaped (body ++ other) = some body.length := by
  induction body generalizing escaped with
  | nil =>
      have bounds := closing_bounds found
      exact absurd (List.length_eq_zero_iff.mp (Nat.le_zero.mp bounds.1)) nonempty
  | cons character body ih =>
      have later {flag : Bool}
          (found : (closing? quote flag (body ++ after)).map (· + 1) = some (body.length + 1)) :
          (closing? quote flag (body ++ other)).map (· + 1) = some (body.length + 1) := by
        obtain ⟨inner, foundRest, same⟩ := Option.map_eq_some_iff.mp found
        obtain rfl : inner = body.length := by omega
        rw [ih foundRest]
        rfl
      have within : quote.length ≤ (character :: body).length := (closing_bounds found).1
      rw [List.cons_append, List.length_cons] at found ⊢
      cases escaped with
      | true => exact later found
      | false =>
          rw [closing?] at found ⊢
          split at found
          next backslash =>
            rw [if_pos backslash]
            exact later found
          next notBackslash =>
          rw [if_neg notBackslash]
          rw [← List.cons_append, Quoted.prefix_of_le within] at found ⊢
          split at found
          next isQuote => rw [if_pos isQuote, found]
          next notQuote =>
            rw [if_neg notQuote]
            exact later found

theorem literal_length_triple (mark : Char) (rest : List Char) :
    literalLength? mark (mark :: mark :: rest) =
      (closing? [mark, mark, mark] false rest).map (· + 3) := by
  simp [literalLength?, Quoted.quotation, List.isPrefixOf]

theorem literal_length_single {rest : List Char} (single : [mark, mark].isPrefixOf rest = false) :
    literalLength? mark rest = (closing? [mark] false rest).map (· + 1) := by
  rw [literalLength?, single]
  rfl

/-- A literal is closed by three marks if three marks open it, and otherwise by one. -/
theorem literal_length_cases (mark : Char) (rest : List Char) :
    (∃ more, rest = mark :: mark :: more ∧
        literalLength? mark rest = (closing? [mark, mark, mark] false more).map (· + 3)) ∨
      ([mark, mark].isPrefixOf rest = false ∧
        literalLength? mark rest = (closing? [mark] false rest).map (· + 1)) := by
  cases triple : [mark, mark].isPrefixOf rest with
  | true =>
      obtain ⟨more, rfl⟩ := List.isPrefixOf_iff_prefix.mp triple
      exact .inl ⟨more, rfl, literal_length_triple mark more⟩
  | false => exact .inr ⟨rfl, literal_length_single triple⟩

theorem closed_cases {rest : List Char} {length : Nat} (closed : literalLength? mark rest = some length) :
    (∃ more inner, rest = mark :: mark :: more ∧ closing? [mark, mark, mark] false more = some inner ∧
        length = inner + 3) ∨
      ([mark, mark].isPrefixOf rest = false ∧
        ∃ inner, closing? [mark] false rest = some inner ∧ length = inner + 1) := by
  rcases literal_length_cases mark rest with ⟨more, whole, length⟩ | ⟨single, length⟩
  · obtain ⟨inner, found, total⟩ := Option.map_eq_some_iff.mp (length.symm.trans closed)
    exact .inl ⟨more, inner, whole, found, total.symm⟩
  · obtain ⟨inner, found, total⟩ := Option.map_eq_some_iff.mp (length.symm.trans closed)
    exact .inr ⟨single, inner, found, total.symm⟩

theorem unclosed_cases {rest : List Char} (endless : literalLength? mark rest = none) :
    (∃ more, rest = mark :: mark :: more ∧ closing? [mark, mark, mark] false more = none) ∨
      ([mark, mark].isPrefixOf rest = false ∧ closing? [mark] false rest = none) := by
  rcases literal_length_cases mark rest with ⟨more, whole, length⟩ | ⟨single, length⟩
  · exact .inl ⟨more, whole, Option.map_eq_none_iff.mp (length.symm.trans endless)⟩
  · exact .inr ⟨single, Option.map_eq_none_iff.mp (length.symm.trans endless)⟩

theorem literal_length_bounds {rest : List Char} {length : Nat}
    (closed : literalLength? mark rest = some length) : 2 ≤ length ∧ length ≤ rest.length + 1 := by
  rcases closed_cases closed with ⟨more, inner, rfl, found, rfl⟩ | ⟨-, inner, found, rfl⟩
  · have bounds := closing_bounds found
    simp only [List.length_cons, List.length_nil] at bounds ⊢
    omega
  · have bounds := closing_bounds found
    rw [List.length_singleton] at bounds
    omega

theorem mark_of_closing_one {first : Char} {after : List Char}
    (found : closing? [mark] false (first :: after) = some 1) : first = mark := by
  by_contra different
  have notQuote : [mark].isPrefixOf (first :: after) = false := by
    simp [List.isPrefixOf, Ne.symm different]
  have tooLong {flag : Bool} : (closing? [mark] flag after).map (· + 1) ≠ some 1 := by
    intro short
    obtain ⟨inner, found, total⟩ := Option.map_eq_some_iff.mp short
    have bounds := (closing_bounds found).1
    rw [List.length_singleton] at bounds
    omega
  rw [closing?, notQuote, if_neg Bool.false_ne_true] at found
  split at found
  · exact tooLong found
  · exact tooLong found

/-- Two marks do not open a literal with three of them unless another one follows. -/
theorem single_of_apart {after : List Char} (apart : after.head? ≠ some mark) :
    [mark, mark].isPrefixOf (mark :: after) = false := by
  cases after with
  | nil => simp [List.isPrefixOf]
  | cons next after =>
      have different : mark ≠ next := by
        rintro rfl
        exact apart rfl
      simp [List.isPrefixOf, different]

/-- A mark and one more character are a literal only as an empty one, behind which no third mark stands. -/
theorem empty_of_short {first : Char} {after : List Char}
    (closed : literalLength? mark (first :: after) = some 2) : first = mark ∧ after.head? ≠ some mark := by
  rcases closed_cases closed with ⟨more, inner, -, -, total⟩ | ⟨single, inner, found, total⟩
  · omega
  · obtain rfl : inner = 1 := by omega
    have quotes := mark_of_closing_one found
    refine ⟨quotes, ?_⟩
    intro isHead
    obtain ⟨more, rfl⟩ := List.head?_eq_some_iff.mp isHead
    simp [quotes, List.isPrefixOf] at single

/-- A literal has the same length, whatever comes after it that does not make an empty one a quote. -/
theorem literal_length_append {body after : List Char}
    (closed : literalLength? mark (body ++ after) = some (body.length + 1)) {other : List Char}
    (apart : body = [mark] → other.head? ≠ some mark) :
    literalLength? mark (body ++ other) = some (body.length + 1) := by
  rcases closed_cases closed with ⟨more, inner, whole, found, total⟩ | ⟨single, inner, found, total⟩
  · obtain ⟨rest, rfl⟩ : ∃ rest, body = mark :: mark :: rest := by
      have bounds := (closing_bounds found).1
      match body with
      | [] | [_] =>
          simp only [List.length_cons, List.length_nil] at total bounds
          omega
      | first :: second :: rest =>
          simp only [List.cons_append, List.cons.injEq] at whole
          exact ⟨rest, by rw [whole.1, whole.2.1]⟩
    have behind : rest ++ after = more := (List.cons.inj (List.cons.inj whole).2).2
    obtain rfl : inner = rest.length := by
      simp only [List.length_cons] at total
      omega
    rw [← behind] at found
    have kept := literal_length_triple mark (rest ++ other)
    rw [closing_append found (List.cons_ne_nil _ _)] at kept
    exact kept
  · obtain rfl : inner = body.length := by omega
    have stays : [mark, mark].isPrefixOf (body ++ other) = false := by
      match body with
      | [] => exact absurd (closing_bounds found).1 (Nat.not_succ_le_zero 0)
      | [first] =>
          obtain rfl := mark_of_closing_one found
          exact single_of_apart (apart rfl)
      | first :: second :: rest =>
          have within : [mark, mark].length ≤ (first :: second :: rest).length := by simp
          rw [Quoted.prefix_of_le within] at single ⊢
          exact single
    rw [literal_length_single stays, closing_append found (List.cons_ne_nil _ _)]
    rfl

section Blanks

variable {blanks : List Char}

theorem prefix_append_apart (apart : ∀ character ∈ blanks, character ∉ quote) (text : List Char) :
    quote.isPrefixOf (text ++ blanks) = quote.isPrefixOf text := by
  induction text generalizing quote with
  | nil =>
      cases quote with
      | nil => simp
      | cons first quote =>
          cases blanks with
          | nil => rfl
          | cons blank blanks =>
              have different : first ≠ blank := by
                rintro rfl
                exact apart first (.head _) (.head _)
              simp [List.isPrefixOf, different]
  | cons character text ih =>
      cases quote with
      | nil => simp
      | cons first quote =>
          rw [List.cons_append, List.isPrefixOf_cons_cons, List.isPrefixOf_cons_cons, ih]
          intro blank member inQuote
          exact apart blank member (.tail _ inQuote)

theorem closing_none_of_apart (nonempty : quote ≠ []) (apart : ∀ character ∈ blanks, character ∉ quote) :
    closing? quote escaped blanks = none := by
  induction blanks generalizing escaped with
  | nil => cases escaped <;> rfl
  | cons blank blanks ih =>
      have later {flag : Bool} : (closing? quote flag blanks).map (· + 1) = none := by
        rw [ih fun character member => apart character (.tail _ member)]
        rfl
      cases escaped with
      | true => exact later
      | false =>
          have noQuote : quote.isPrefixOf (blank :: blanks) = false := by
            cases quote with
            | nil => exact absurd rfl nonempty
            | cons first quote => exact prefix_append_apart apart []
          rw [closing?, noQuote, if_neg Bool.false_ne_true]
          split
          · exact later
          · exact later

theorem closing_none_append {rest : List Char} (nonempty : quote ≠ [])
    (apart : ∀ character ∈ blanks, character ∉ quote) (endless : closing? quote escaped rest = none) :
    closing? quote escaped (rest ++ blanks) = none := by
  induction rest generalizing escaped with
  | nil => exact closing_none_of_apart nonempty apart
  | cons character rest ih =>
      have later {flag : Bool} (endless : (closing? quote flag rest).map (· + 1) = none) :
          (closing? quote flag (rest ++ blanks)).map (· + 1) = none := by
        rw [ih (Option.map_eq_none_iff.mp endless)]
        rfl
      rw [List.cons_append]
      cases escaped with
      | true => exact later endless
      | false =>
          have front := prefix_append_apart apart (character :: rest)
          rw [List.cons_append] at front
          rw [closing?] at endless ⊢
          rw [front]
          split at endless
          next backslash =>
            rw [if_pos backslash]
            exact later endless
          next notBackslash =>
          rw [if_neg notBackslash]
          split at endless
          next => cases endless
          next notQuote =>
            rw [if_neg notQuote]
            exact later endless

theorem literal_none_append {rest : List Char} (noMark : mark ∉ blanks)
    (endless : literalLength? mark rest = none) : literalLength? mark (rest ++ blanks) = none := by
  have apart {count : Nat} : ∀ character ∈ blanks, character ∉ List.replicate count mark := by
    intro character member inQuote
    rw [List.eq_of_mem_replicate inQuote] at member
    exact noMark member
  rcases unclosed_cases endless with ⟨more, rfl, notFound⟩ | ⟨single, notFound⟩
  · have kept := closing_none_append (List.cons_ne_nil _ _) (@apart 3) notFound
    exact (literal_length_triple mark (more ++ blanks)).trans (Option.map_eq_none_iff.mpr kept)
  · have kept := closing_none_append (List.cons_ne_nil _ _) (@apart 1) notFound
    have stays := (prefix_append_apart (@apart 2) rest).trans single
    exact (literal_length_single stays).trans (Option.map_eq_none_iff.mpr kept)

end Blanks

/-! ## Cutting a text -/

/-- How a text is cut into blanks, comments and the signs and literals between them. A comment goes up to
the end of its line. -/
inductive Cut : List Char → List Stretch → Prop
  | nil : Cut [] []
  | blank {character : Char} {rest : List Char} {row : List Stretch} (isSpace : isBlank character = true)
      (cut : Cut rest row) : Cut (character :: rest) row
  | comment {inner rest : List Char} {row : List Stretch} (onLine : '\n' ∉ inner)
      (ends : ∀ character ∈ rest.head?, character = '\n') (cut : Cut rest row) :
      Cut ('#' :: (inner ++ rest)) row
  | literal {mark : Char} {body rest : List Char} {row : List Stretch} (quotes : isMark mark = true)
      (closed : literalLength? mark (body ++ rest) = some (body.length + 1)) (cut : Cut rest row) :
      Cut (mark :: (body ++ rest)) (.literal (mark :: body) :: row)
  | unclosed {mark : Char} {rest : List Char} (quotes : isMark mark = true)
      (unclosed : literalLength? mark rest = none) : Cut (mark :: rest) [.unclosed]
  | sign {character : Char} {rest : List Char} {row : List Stretch} (notBlank : isBlank character = false)
      (notComment : character ≠ '#') (notMark : isMark character = false) (cut : Cut rest row) :
      Cut (character :: rest) (.sign character :: row)

theorem stretches_from_length (front rest : List Char) :
    stretchesFrom front.length (front ++ rest) = stretches rest := by
  induction front with
  | nil => cases rest <;> rfl
  | cons character front ih => exact ih

theorem stretches_of_cut {text : List Char} {row : List Stretch} (cut : Cut text row) :
    stretches text = row := by
  induction cut with
  | nil => rfl
  | blank isSpace cut ih =>
      rw [stretches, stretchesFrom, if_pos isSpace]
      exact ih
  | @comment inner rest row onLine ends cut ih =>
      have run : (inner ++ rest).takeWhile (· ≠ '\n') = inner := by
        apply take_while_run
        · intro character member
          apply decide_eq_true
          rintro rfl
          exact onLine member
        · intro character isHead
          simpa using ends character isHead
      rw [stretches, stretchesFrom, if_neg (by decide), if_pos rfl, run, stretches_from_length]
      exact ih
  | @literal mark body rest row quotes closed cut ih =>
      have notComment : mark ≠ '#' := ne_of_is_mark quotes rfl
      rw [stretches, stretchesFrom, not_blank_of_is_mark quotes, if_neg Bool.false_ne_true,
        if_neg notComment, if_pos quotes, closed]
      dsimp only
      rw [Nat.add_sub_cancel, stretches_from_length, ih, List.take_succ_cons, List.take_left]
  | @unclosed mark rest quotes unclosed =>
      have notComment : mark ≠ '#' := ne_of_is_mark quotes rfl
      rw [stretches, stretchesFrom, not_blank_of_is_mark quotes, if_neg Bool.false_ne_true,
        if_neg notComment, if_pos quotes, unclosed]
  | sign notBlank notComment notMark cut ih =>
      rw [stretches, stretchesFrom, notBlank, if_neg Bool.false_ne_true, if_neg notComment, notMark,
        if_neg Bool.false_ne_true]
      exact congrArg _ ih

theorem cut_comment {inner after : List Char} {row : List Stretch} (onLine : '\n' ∉ inner)
    (cut : Cut (after.dropWhile (· ≠ '\n')) row) : Cut ('#' :: (inner ++ after)) row := by
  have onLineAll : '\n' ∉ inner ++ after.takeWhile (· ≠ '\n') := by
    intro member
    rcases List.mem_append.mp member with inInner | inRun
    · exact onLine inInner
    · simpa using List.mem_takeWhile_imp inRun
  have ends : ∀ character ∈ (after.dropWhile (· ≠ '\n')).head?, character = '\n' := by
    intro character isHead
    simpa using stops_drop_while (· ≠ '\n') after character isHead
  have whole := Cut.comment onLineAll ends cut
  rw [List.append_assoc, List.takeWhile_append_dropWhile] at whole
  exact whole

theorem cut_blanks_append {blanks rest : List Char} (blank : ∀ character ∈ blanks, isBlank character = true)
    {row : List Stretch} (cut : Cut rest row) : Cut (blanks ++ rest) row := by
  induction blanks with
  | nil => exact cut
  | cons character blanks ih =>
      exact .blank (blank character (.head _)) (ih fun c member => blank c (.tail _ member))

theorem exists_cut (text : List Char) : ∃ row, Cut text row := by
  -- A comment and a literal take more than one character off, so the induction is on the length.
  induction size : text.length using Nat.strong_induction_on generalizing text with
  | _ size ih =>
  subst size
  match text with
  | [] => exact ⟨[], .nil⟩
  | character :: rest =>
      have later {other : List Char} (shorter : other.length ≤ rest.length) : ∃ row, Cut other row :=
        ih other.length (Nat.lt_succ_of_le shorter) other rfl
      cases notBlank : isBlank character with
      | true =>
          obtain ⟨row, cut⟩ := later (Nat.le_refl _)
          exact ⟨row, .blank notBlank cut⟩
      | false =>
      by_cases comment : character = '#'
      · subst comment
        obtain ⟨row, cut⟩ := later (List.dropWhile_suffix (· ≠ '\n')).length_le
        exact ⟨row, cut_comment List.not_mem_nil cut⟩
      cases notMark : isMark character with
      | false =>
          obtain ⟨row, cut⟩ := later (Nat.le_refl _)
          exact ⟨.sign character :: row, .sign notBlank comment notMark cut⟩
      | true =>
          cases closed : literalLength? character rest with
          | none => exact ⟨[.unclosed], .unclosed notMark closed⟩
          | some length =>
              have bounds := literal_length_bounds closed
              have taken : (rest.take (length - 1)).length + 1 = length := by
                rw [List.length_take]
                omega
              obtain ⟨row, cut⟩ := later (List.drop_suffix (length - 1) rest).length_le
              have whole := @Cut.literal character (rest.take (length - 1)) _ _ notMark
                (by rw [List.take_append_drop, taken, closed]) cut
              rw [List.take_append_drop] at whole
              exact ⟨_, whole⟩

/-- Blanks behind a text are cut off with it; a comment that it ends with takes them along. -/
theorem cut_append_blanks {text : List Char} {row : List Stretch} (cut : Cut text row) {blanks : List Char}
    (blank : ∀ character ∈ blanks, isBlank character = true) : Cut (text ++ blanks) row := by
  have noMark {mark : Char} (quotes : isMark mark = true) : mark ∉ blanks := by
    intro member
    have isSpace := blank mark member
    rw [not_blank_of_is_mark quotes] at isSpace
    cases isSpace
  have only {others : List Char} (blank : ∀ character ∈ others, isBlank character = true) :
      Cut others [] := by
    rw [← List.append_nil others]
    exact cut_blanks_append blank .nil
  induction cut with
  | nil => exact only blank
  | blank isSpace cut ih => exact .blank isSpace ih
  | @comment inner rest row onLine ends cut ih =>
      cases rest with
      | nil =>
          cases cut
          rw [List.append_nil]
          apply cut_comment onLine
          apply only
          intro character member
          exact blank character ((List.dropWhile_suffix (· ≠ '\n')).subset member)
      | cons character rest =>
          rw [List.cons_append, List.append_assoc]
          exact .comment onLine ends ih
  | @literal mark body rest row quotes closed cut ih =>
      rw [List.cons_append, List.append_assoc]
      refine .literal quotes (literal_length_append closed ?_) ih
      intro empty
      subst empty
      have apart := (empty_of_short closed).2
      cases rest with
      | nil =>
          intro isHead
          exact noMark quotes (List.mem_of_mem_head? isHead)
      | cons character rest => exact apart
  | unclosed quotes unclosed => exact .unclosed quotes (literal_none_append (noMark quotes) unclosed)
  | sign notBlank notComment notMark cut ih => exact .sign notBlank notComment notMark ih

theorem cut_stretches (text : List Char) : Cut text (stretches text) := by
  obtain ⟨row, cut⟩ := exists_cut text
  rw [stretches_of_cut cut]
  exact cut

theorem stretches_trim (text : List Char) : stretches (trim text) = stretches text := by
  obtain ⟨before, after, whole, blankBefore, blankAfter⟩ := trim_parts text
  have cut := cut_blanks_append blankBefore (cut_append_blanks (cut_stretches (trim text)) blankAfter)
  rw [← whole] at cut
  exact (stretches_of_cut cut).symm

end TaskCab.Source.Compact
