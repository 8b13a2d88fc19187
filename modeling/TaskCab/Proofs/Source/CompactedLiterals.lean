import Mathlib.Data.List.Chain
import TaskCab.Proofs.Source.Compaction
import TaskCab.Proofs.Source.Stretches

/-!
# Literals in compact text

Compaction copies the string literals of a text as they are, in their order. A mark that the text keeps apart
from the one in front of it stays apart, so the marks of compact text pair off as they did before. A second
compaction changes nothing if no two commas stand side by side.
-/

namespace TaskCab.Source.Compact

open TaskCab.Text

/-! ## Copying a literal -/

/-- Whether a text is copied as it is, on the way from one place to another. -/
structure Carries (place : Place) (text : List Char) (next : Place) : Prop where
  reached : ∀ written, text.foldl step ⟨place, false, false, written⟩ =
    ⟨next, false, false, text.reverse ++ written⟩
  settles : ∀ written, settles ⟨place, false, false, written⟩ text = true

variable {place next : Place} {mark character : Char}

theorem carries_nil (place : Place) : Carries place [] place := ⟨fun _ => rfl, fun _ => rfl⟩

theorem carries_cons {middle : Place} {text : List Char} (notCode : place ≠ .code)
    (one : ∀ written, step ⟨place, false, false, written⟩ character =
      ⟨middle, false, false, character :: written⟩)
    (carries : Carries middle text next) : Carries place (character :: text) next := by
  constructor
  · intro written
    rw [List.foldl_cons, one, carries.reached]
    simp
  · intro written
    rw [settles, one, carries.settles]
    simp [dropsSecond, notCode]

/-- Whether a text is copied up to the end of a closing quote, or to its own end without one. -/
def CarriesTo (place : Place) (length? : Option Nat) (text : List Char) : Prop :=
  match length? with
  | some length => Carries place (text.take length) .code
  | none => ∃ next, Carries place text next

theorem carries_to_cons {middle : Place} {length? : Option Nat} {text : List Char} (notCode : place ≠ .code)
    (one : ∀ written, step ⟨place, false, false, written⟩ character =
      ⟨middle, false, false, character :: written⟩)
    (carries : CarriesTo middle length? text) :
    CarriesTo place (length?.map (· + 1)) (character :: text) := by
  cases length? with
  | some length => exact carries_cons notCode one carries
  | none =>
      obtain ⟨next, carries⟩ := carries
      exact ⟨next, carries_cons notCode one carries⟩

theorem carries_quotation (notBackslash : mark ≠ '\\') (triple : Bool) (run : Nat)
    (fresh : triple = true → run = 0) :
    Carries (.literal mark triple run) (Quoted.quotation mark triple) .code := by
  have one (count : Nat) (written : List Char) := step_literal mark triple count written mark
  cases triple with
  | false =>
      apply carries_cons (by simp) _ (carries_nil _)
      intro written
      rw [one]
      simp [literalPlace, notBackslash]
  | true =>
      obtain rfl := fresh rfl
      apply @carries_cons _ _ _ (.literal mark true 1) _ (by simp)
      · intro written
        rw [one]
        simp [literalPlace, notBackslash]
      apply @carries_cons _ _ _ (.literal mark true 2) _ (by simp)
      · intro written
        rw [one]
        simp [literalPlace, notBackslash]
      apply carries_cons (by simp) _ (carries_nil _)
      intro written
      rw [one]
      simp [literalPlace, notBackslash]

/-- The body of a literal is copied up to the first closing quote. -/
theorem carries_body (quotes : isMark mark = true) (triple : Bool) (rest : List Char) (escaped : Bool)
    {run : Nat} (ends : RunEnds ⟨false, false, false, mark, triple⟩ run rest) :
    CarriesTo (if escaped then .escape mark triple else .literal mark triple run)
      (closing? (Quoted.quotation mark triple) escaped rest) rest := by
  have notBackslash : mark ≠ '\\' := ne_of_is_mark quotes rfl
  induction rest generalizing escaped run with
  | nil => exact ⟨_, carries_nil _⟩
  | cons character rest ih =>
      have started := @run_ends_zero ⟨false, false, false, mark, triple⟩ rest
      cases escaped with
      | true =>
          apply carries_to_cons (by simp) _ (ih false started)
          intro written
          rfl
      | false =>
          rw [closing?, if_neg Bool.false_ne_true]
          split
          next backslash =>
            subst backslash
            apply carries_to_cons (by simp) _ (ih true started)
            intro written
            rfl
          next other =>
          split
          next isQuote =>
            obtain ⟨more, same⟩ := List.isPrefixOf_iff_prefix.mp isQuote
            rw [← same] at ends ⊢
            rw [CarriesTo, List.take_left]
            apply carries_quotation notBackslash
            intro isTriple
            subst isTriple
            rcases ends rfl with zero | ⟨-, noTwo⟩ | ⟨-, noOne⟩
            · exact zero
            · exact absurd ⟨mark :: more, rfl⟩ noTwo
            · exact absurd ⟨mark :: mark :: more, rfl⟩ noOne
          next notQuote =>
            by_cases same : character = mark
            · subst same
              have isTriple : triple = true := by
                cases triple with
                | true => rfl
                | false => exact absurd (by simp [Quoted.quotation, List.isPrefixOf]) notQuote
              subst isTriple
              have notClosing :
                  Quoted.closes ⟨false, false, false, character, true⟩ (character :: rest) = false := by
                rw [Quoted.closes_eq]
                exact Bool.eq_false_iff.mpr notQuote
              obtain ⟨notTwo, ends⟩ := run_ends_next rfl ends notClosing
              apply carries_to_cons (by simp) _ (ih false ends)
              intro written
              rw [step_literal]
              simp [literalPlace, notBackslash, notTwo]
            · apply carries_to_cons (by simp) _ (ih false started)
              intro written
              rw [step_literal, literal_place_other triple run other same]
              rfl

/-- Behind its first mark a literal is copied as it would be in the middle, unless it is empty. -/
theorem carries_opened {text : List Char} (different : character ≠ mark)
    (carries : Carries (.literal mark false 0) (character :: text) next) :
    Carries (.opened mark) (character :: text) next := by
  have one (written : List Char) : step ⟨.opened mark, false, false, written⟩ character =
      step ⟨.literal mark false 0, false, false, written⟩ character := by
    simp [step, different]
  constructor
  · intro written
    rw [← carries.reached, List.foldl_cons, List.foldl_cons, one]
  · intro written
    have settled := carries.settles written
    rw [settles, Bool.and_eq_true] at settled
    rw [settles, one, settled.2]
    simp [dropsSecond]

theorem carries_twice (mark : Char) : Carries (.opened mark) [mark] (.openedTwice mark) := by
  apply carries_cons (by simp) _ (carries_nil _)
  intro written
  simp [step]

theorem carries_triple {text : List Char} (carries : Carries (.literal mark true 0) text next) :
    Carries (.opened mark) (mark :: mark :: text) next := by
  apply @carries_cons _ _ _ (.openedTwice mark) _ (by simp)
  · intro written
    simp [step]
  apply carries_cons (by simp) _ carries
  intro written
  simp [step]

/-- A literal is copied as a whole; behind an empty one a third mark could still come. -/
theorem carries_literal {body rest : List Char} (quotes : isMark mark = true)
    (closed : literalLength? mark (body ++ rest) = some (body.length + 1)) :
    Carries (.opened mark) body (if body = [mark] then .openedTwice mark else .code) := by
  have front : (body ++ rest).take body.length = body := List.take_left
  rcases closed_cases closed with ⟨more, inner, whole, found, total⟩ | ⟨-, inner, found, total⟩
  · have copied := carries_body quotes true more false (run_ends_zero more)
    have quote : Quoted.quotation mark true = [mark, mark, mark] := rfl
    rw [quote, found] at copied
    have size : body.length = inner + 2 := by omega
    have taken : body = mark :: mark :: more.take inner := by
      rw [whole, size] at front
      exact front.symm
    rw [taken, if_neg (by simp)]
    exact carries_triple copied
  · obtain rfl : inner = body.length := by omega
    have copied := carries_body quotes false (body ++ rest) false (run_ends_zero _)
    have quote : Quoted.quotation mark false = [mark] := rfl
    rw [quote, found, CarriesTo, front] at copied
    cases body with
    | nil => exact absurd (closing_bounds found).1 (Nat.not_succ_le_zero 0)
    | cons first body =>
        by_cases same : first = mark
        · subst same
          rw [List.cons_append, closing?, if_neg (ne_of_is_mark quotes rfl),
            if_pos (by simp [List.isPrefixOf])] at found
          obtain rfl : body = [] := by
            have lengths := Option.some.inj found
            rw [List.length_singleton, List.length_cons] at lengths
            exact List.length_eq_zero_iff.mp (by omega)
          rw [if_pos rfl]
          exact carries_twice first
        · have notEmpty : first :: body ≠ [mark] := by
            intro empty
            exact same (List.cons.inj empty).1
          rw [if_neg notEmpty]
          exact carries_opened same copied

theorem carries_unclosed {rest : List Char} (quotes : isMark mark = true)
    (endless : literalLength? mark rest = none) : ∃ next, Carries (.opened mark) rest next := by
  rcases unclosed_cases endless with ⟨more, rfl, notFound⟩ | ⟨-, notFound⟩
  · have copied := carries_body quotes true more false (run_ends_zero more)
    have quote : Quoted.quotation mark true = [mark, mark, mark] := rfl
    rw [quote, notFound] at copied
    obtain ⟨next, carries⟩ := copied
    exact ⟨next, carries_triple carries⟩
  · have copied := carries_body quotes false rest false (run_ends_zero _)
    have quote : Quoted.quotation mark false = [mark] := rfl
    rw [quote, notFound] at copied
    obtain ⟨next, carries⟩ := copied
    cases rest with
    | nil => exact ⟨.opened mark, carries_nil _⟩
    | cons first rest =>
        have different : first ≠ mark := by
          rintro rfl
          rw [closing?, if_neg (ne_of_is_mark quotes rfl), if_pos (by simp [List.isPrefixOf])] at notFound
          cases notFound
        exact ⟨next, carries_opened different carries⟩

/-! ## One stretch -/

variable {progress : Progress} {last : Option Char} {rest : List Char}

theorem not_copies_of_resumes {text : List Char} (resumes : Resumes progress text) :
    progress.place.copies = false := by
  unfold Resumes at resumes
  cases place : progress.place with
  | code | comment | openedTwice => rfl
  | opened | literal | escape =>
      rw [place] at resumes
      exact resumes.elim

theorem not_comment_of_resumes (resumes : Resumes progress (character :: rest)) (notFeed : character ≠ '\n') :
    progress.place ≠ .comment := by
  intro comment
  rw [Resumes, comment] at resumes
  exact notFeed (resumes character rfl)

theorem reads_of_resumes (resumes : Resumes progress (character :: rest))
    (notBlank : isBlank character = false) : Reads progress character (step progress character) := by
  have notFeed : character ≠ '\n' := by
    rintro rfl
    simp [isBlank] at notBlank
  rw [step_resumed resumes (not_comment_of_resumes resumes notFeed)]
  exact reads_code progress character

theorem step_blank (resumes : Resumes progress (character :: rest)) (isSpace : isBlank character = true) :
    step progress character = { progress with place := .code, spaced := true } := by
  by_cases comment : progress.place = .comment
  · have isFeed : character = '\n' := by
      rw [Resumes, comment] at resumes
      exact resumes character rfl
    subst isFeed
    simp [step, comment]
  · rw [step_resumed resumes comment, codeStep, if_pos isSpace]

theorem step_comment (resumes : Resumes progress ('#' :: rest)) :
    step progress '#' = { progress with place := .comment } := by
  rw [step_resumed resumes (not_comment_of_resumes resumes (by decide))]
  rfl

theorem step_mark (resumes : Resumes progress (mark :: rest)) (quotes : isMark mark = true) :
    step progress mark = ⟨.opened mark, false, false, mark :: (separator progress ++ progress.written)⟩ := by
  have plain : IsPlain mark := by
    refine ⟨not_blank_of_is_mark quotes, ?_, ?_, ?_, ?_, ?_, ?_⟩ <;> exact ne_of_is_mark quotes rfl
  have noComment := not_comment_of_resumes resumes (ne_of_is_mark quotes rfl)
  rw [step_resumed resumes noComment, code_step_plain progress plain, if_pos quotes]

theorem settles_append (front text : List Char) :
    settles progress (front ++ text) =
      (settles progress front && settles (front.foldl step progress) text) := by
  induction front generalizing progress with
  | nil => rfl
  | cons character front ih => rw [List.cons_append, settles, settles, ih, List.foldl_cons, Bool.and_assoc]

theorem drops_none (notSquare : character ≠ ']') (notCurly : character ≠ '\x7d') :
    dropsSecond progress character = false := by
  simp [dropsSecond, notSquare, notCurly]

theorem comment_passed {inner : List Char} (onLine : '\n' ∉ inner) (comment : progress.place = .comment) :
    inner.foldl step progress = progress ∧ settles progress inner = true := by
  induction inner with
  | nil => exact ⟨rfl, rfl⟩
  | cons character inner ih =>
      have notFeed : character ≠ '\n' := by
        rintro rfl
        exact onLine (.head _)
      have stays : step progress character = progress := by simp [step, comment, notFeed]
      have passed := ih fun member => onLine (.tail _ member)
      rw [List.foldl_cons, settles, stays, passed.2]
      exact ⟨passed.1, by simp [dropsSecond, comment]⟩

theorem literal_passed {body : List Char} (resumes : Resumes progress (mark :: rest))
    (quotes : isMark mark = true) (carries : Carries (.opened mark) body next) :
    (mark :: body).foldl step progress =
        ⟨next, false, false, (mark :: body).reverse ++ (separator progress ++ progress.written)⟩ ∧
      settles progress (mark :: body) = true := by
  have keeps : dropsSecond progress mark = false :=
    drops_none (ne_of_is_mark quotes rfl) (ne_of_is_mark quotes rfl)
  rw [List.foldl_cons, settles, keeps, step_mark resumes quotes, carries.reached, carries.settles]
  constructor
  · simp
  · rfl

theorem resumes_after_literal {body : List Char} {written : List Char}
    (closed : literalLength? mark (body ++ rest) = some (body.length + 1)) :
    Resumes ⟨if body = [mark] then .openedTwice mark else .code, false, false, written⟩ rest := by
  by_cases empty : body = [mark]
  · subst empty
    rw [if_pos rfl]
    exact (empty_of_short closed).2
  · exact resumes_code (if_neg empty) rest

/-! ## What is written between literals -/

def IsMute (character : Char) : Prop := isMark character = false ∧ character ≠ '#'

theorem literals_mute_append {front : List Char} (mute : ∀ character ∈ front, IsMute character)
    (text : List Char) : literals (front ++ text) = literals text := by
  induction front with
  | nil => rfl
  | cons character front ih =>
      have isMute := mute character (.head _)
      have later := ih fun other member => mute other (.tail _ member)
      have cut := cut_stretches (front ++ text)
      rw [List.cons_append, ← later]
      cases notBlank : isBlank character with
      | true =>
          have same := stretches_of_cut (.blank notBlank cut)
          rw [literals, same, literals]
      | false =>
          have same := stretches_of_cut (.sign notBlank isMute.2 isMute.1 cut)
          rw [literals, same, literals]
          rfl

theorem literals_literal {body : List Char} (quotes : isMark mark = true)
    (closed : literalLength? mark (body ++ rest) = some (body.length + 1)) :
    literals (mark :: (body ++ rest)) = (mark :: body) :: literals rest := by
  rw [literals, stretches_of_cut (.literal quotes closed (cut_stretches rest))]
  rfl

theorem head_mute_append {front text : List Char} (mute : ∀ character ∈ front, IsMute character)
    (quotes : isMark mark = true) (behind : front = [] → text.head? ≠ some mark) :
    (front ++ text).head? ≠ some mark := by
  cases front with
  | nil => exact behind rfl
  | cons character front =>
      intro isHead
      exact ne_of_is_mark quotes (mute character (.head _)).1 (Option.some.inj isHead).symm

def held (progress : Progress) : List Char := if progress.afterComma then [','] else []

/-- What comes behind the settled text in front of a character that has a separator before it. -/
def lead (progress : Progress) : List Char := held progress ++ separator progress

theorem written_eq_held (orderly : Orderly progress last) (code : progress.place.copies = false) :
    progress.written = (held progress).reverse ++ settled progress := by
  cases comma : progress.afterComma with
  | true =>
      have head := orderly.comma code
      rw [comma] at head
      rw [held, if_pos comma]
      exact settled_of_comma comma (of_decide_eq_true head.symm)
  | false =>
      rw [held, comma, if_neg Bool.false_ne_true, settled_of_other comma]
      rfl

theorem separated_eq_lead (orderly : Orderly progress last) (code : progress.place.copies = false) :
    separator progress ++ progress.written = (lead progress).reverse ++ settled progress := by
  have same : (separator progress).reverse = separator progress := by
    rcases separator_cases orderly code with none | ⟨one, -⟩
    · rw [none]
      rfl
    · rw [one]
      rfl
  rw [lead, List.reverse_append, same, List.append_assoc, ← written_eq_held orderly code]

theorem mute_held : ∀ character ∈ held progress, IsMute character := by
  unfold held
  split
  · intro character member
    obtain rfl := List.mem_singleton.mp member
    exact ⟨rfl, by decide⟩
  · intro character member
    cases member

theorem mute_lead (orderly : Orderly progress last) (code : progress.place.copies = false) :
    ∀ character ∈ lead progress, IsMute character := by
  intro character member
  rcases List.mem_append.mp member with inHeld | inSeparator
  · exact mute_held character inHeld
  · rcases separator_cases orderly code with none | ⟨one, -⟩
    · rw [none] at inSeparator
      cases inSeparator
    · rw [one] at inSeparator
      obtain rfl := List.mem_singleton.mp inSeparator
      exact ⟨rfl, by decide⟩

/-- Whether the text keeps a mark that has been written last apart from the next one. -/
def Parts (progress : Progress) (mark : Char) : Prop :=
  progress.place = .openedTwice mark ∨ progress.place = .comment ∨
    (progress.spaced = true ∨ progress.afterComma = true)

/-- A literal does not come right behind a mark that the text keeps apart from it. -/
theorem apart_of_parts (orderly : Orderly progress last) {other : Char}
    (resumes : Resumes progress (other :: rest)) (isOther : isMark other = true)
    (quotes : isMark mark = true) (head : (settled progress).head? = some mark)
    (parts : Parts progress mark) (more : List Char) :
    (lead progress ++ other :: more).head? ≠ some mark := by
  have code := not_copies_of_resumes resumes
  apply head_mute_append (mute_lead orderly code) quotes
  intro noLead
  rcases parts with twice | comment | due
  · rw [Resumes, twice] at resumes
    exact resumes
  · exact absurd comment (not_comment_of_resumes resumes (ne_of_is_mark isOther rfl))
  · rw [lead, separator_behind_mark due quotes head] at noLead
    simp at noLead

/-- What a sign puts behind the settled text: at least something, unless it is a comma that is held back. -/
theorem sign_front {reached : Progress} (orderly : Orderly progress last)
    (code : progress.place.copies = false) (notBlank : isBlank character = false)
    (notComment : character ≠ '#') (notMark : isMark character = false)
    (reads : Reads progress character reached) :
    ∃ front, settled reached = front.reverse ++ settled progress ∧ (∀ other ∈ front, IsMute other) ∧
      reached.place = .code ∧ (front = [] → reached.afterComma = true) := by
  have isMute : IsMute character := ⟨notMark, notComment⟩
  have behind {front : List Char} (mute : ∀ other ∈ front, IsMute other) :
      ∀ other ∈ front ++ [character], IsMute other := by
    intro other member
    rcases List.mem_append.mp member with inFront | isLast
    · exact mute other inFront
    · obtain rfl := List.mem_singleton.mp isLast
      exact isMute
  have isHeld := written_eq_held orderly code
  cases reads with
  | blank isSpace =>
      rw [notBlank] at isSpace
      cases isSpace
  | comment => exact absurd rfl notComment
  | round =>
      refine ⟨held progress ++ [')'], ?_, behind mute_held, rfl, by simp⟩
      rw [settled, if_neg Bool.false_ne_true, isHeld, List.reverse_append]
      rfl
  | colon =>
      refine ⟨held progress ++ [':'], ?_, behind mute_held, rfl, by simp⟩
      rw [settled, if_neg Bool.false_ne_true, isHeld, List.reverse_append]
      rfl
  | closing closes => exact ⟨[character], rfl, behind (List.forall_mem_nil _), rfl, by simp⟩
  | comma => exact ⟨held progress, isHeld, mute_held, rfl, fun _ => rfl⟩
  | plain plain =>
      have place : (if isMark character then Place.opened character else .code) = .code := by
        rw [notMark, if_neg Bool.false_ne_true]
      refine ⟨lead progress ++ [character], ?_, behind (mute_lead orderly code), place, by simp⟩
      rw [settled, if_neg Bool.false_ne_true, separated_eq_lead orderly code, List.reverse_append]
      rfl

/-- Only a comma is held back, and then all in front of it is settled. -/
theorem comma_of_reads {reached : Progress} (reads : Reads progress character reached)
    (notBlank : isBlank character = false) (notComment : character ≠ '#')
    (comma : reached.afterComma = true) : character = ',' ∧ settled reached = progress.written := by
  cases reads with
  | blank isSpace =>
      rw [notBlank] at isSpace
      cases isSpace
  | comment => exact absurd rfl notComment
  | comma => exact ⟨rfl, rfl⟩
  | round | colon | closing | plain => cases comma

/-! ## The whole text -/

/-- What a compaction that goes on from a progress writes behind its settled text. -/
structure Tail (progress final : Progress) (row : List Stretch) (tail : List Char) : Prop where
  written : final.written.reverse = (settled progress).reverse ++ tail
  literals : literals tail = row.filterMap Stretch.literal?
  apart : ∀ mark, isMark mark = true → (settled progress).head? = some mark → Parts progress mark →
    tail.head? ≠ some mark

/-- Characters between literals go in front of what is written later. Where there are none, the text itself
keeps the marks apart. -/
theorem tail_behind {reached final : Progress} {row : List Stretch} {front tail : List Char}
    (behind : settled reached = front.reverse ++ settled progress)
    (mute : ∀ character ∈ front, IsMute character) (parts : front = [] → ∀ mark, Parts reached mark)
    (later : Tail reached final row tail) : Tail progress final row (front ++ tail) := by
  obtain ⟨written, kept, apart⟩ := later
  refine ⟨?_, ?_, ?_⟩
  · rw [written, behind]
    simp
  · rw [literals_mute_append mute, kept]
  · intro mark quotes head _
    apply head_mute_append mute quotes
    intro nothing
    apply apart mark quotes _ (parts nothing mark)
    rw [behind, nothing]
    exact head

theorem exists_tail {text : List Char} {row : List Stretch} (cut : Cut text row)
    (orderly : Orderly progress last) (resumes : Resumes progress text) :
    ∃ tail, Tail progress (text.foldl step progress) row tail := by
  induction cut generalizing progress last with
  | nil =>
      have code := not_copies_of_resumes resumes
      refine ⟨held progress, ?_, ?_, ?_⟩
      · rw [List.foldl_nil, written_eq_held orderly code]
        simp
      · rw [← List.append_nil (held progress)]
        exact literals_mute_append mute_held []
      · intro mark quotes _ _
        rw [← List.append_nil (held progress)]
        apply head_mute_append mute_held quotes
        intro _ isHead
        cases isHead
  | @blank character rest row isSpace cut ih =>
      have reached := step_blank resumes isSpace
      have orderlyThere := orderly_step orderly character
      rw [reached] at orderlyThere
      obtain ⟨tail, later⟩ := ih orderlyThere (resumes_code rfl rest)
      have behind : settled { progress with place := .code, spaced := true } =
          List.reverse [] ++ settled progress := rfl
      rw [List.foldl_cons, reached]
      exact ⟨tail, tail_behind behind (List.forall_mem_nil _) (fun _ _ => .inr (.inr (.inl rfl))) later⟩
  | @comment inner rest row onLine ends cut ih =>
      have reached := step_comment resumes
      have orderlyThere := orderly_step orderly '#'
      rw [reached] at orderlyThere
      obtain ⟨tail, later⟩ := ih orderlyThere ends
      have behind : settled { progress with place := .comment } = List.reverse [] ++ settled progress := rfl
      rw [List.foldl_cons, List.foldl_append, reached, (comment_passed onLine rfl).1]
      exact ⟨tail, tail_behind behind (List.forall_mem_nil _) (fun _ _ => .inr (.inl rfl)) later⟩
  | @literal mark body rest row quotes closed cut ih =>
      have code := not_copies_of_resumes resumes
      have passed := (literal_passed resumes quotes (carries_literal quotes closed)).1
      have orderlyThere := orderly_foldl orderly (mark :: body)
      rw [passed] at orderlyThere
      obtain ⟨tail, written, kept, apart⟩ := ih orderlyThere (resumes_after_literal closed)
      have stays : literalLength? mark (body ++ tail) = some (body.length + 1) := by
        apply literal_length_append closed
        intro empty
        apply apart mark quotes
        · rw [settled, if_neg Bool.false_ne_true, empty]
          rfl
        · exact .inl (if_pos empty)
      refine ⟨lead progress ++ mark :: (body ++ tail), ?_, ?_, ?_⟩
      · rw [← List.cons_append, List.foldl_append, passed, written, settled, if_neg Bool.false_ne_true,
          separated_eq_lead orderly code]
        simp
      · rw [literals_mute_append (mute_lead orderly code), literals_literal quotes stays, kept]
        rfl
      · intro other isOther head parts
        exact apart_of_parts orderly resumes quotes isOther head parts _
  | @unclosed mark rest quotes endless =>
      have code := not_copies_of_resumes resumes
      obtain ⟨next, carries⟩ := carries_unclosed quotes endless
      have passed := (literal_passed resumes quotes carries).1
      refine ⟨lead progress ++ mark :: rest, ?_, ?_, ?_⟩
      · rw [passed, separated_eq_lead orderly code]
        simp
      · rw [literals_mute_append (mute_lead orderly code), literals,
          stretches_of_cut (.unclosed quotes endless)]
      · intro other isOther head parts
        exact apart_of_parts orderly resumes quotes isOther head parts _
  | @sign character rest row notBlank notComment notMark cut ih =>
      have code := not_copies_of_resumes resumes
      have reads := reads_of_resumes resumes notBlank
      obtain ⟨front, behind, mute, codeThere, comma⟩ :=
        sign_front orderly code notBlank notComment notMark reads
      obtain ⟨tail, later⟩ := ih (orderly_step orderly character) (resumes_code codeThere rest)
      have between := tail_behind behind mute (fun nothing _ => .inr (.inr (.inr (comma nothing)))) later
      exact ⟨front ++ tail, between.written, between.literals, between.apart⟩

/-- A compact text has the literals of the text that it was made of. -/
theorem literals_text (expression : List Char) : literals (text expression) = literals expression := by
  obtain ⟨tail, written, kept, -⟩ :=
    exists_tail (cut_stretches (trim expression)) orderly_start (resumes_code rfl _)
  have whole : text expression = tail := written
  rw [whole, kept, stretches_trim]
  rfl

/-- No comma is dropped that stands right behind another one, if none stands there in the text. -/
theorem settles_of_cut {text : List Char} {row : List Stretch} (cut : Cut text row)
    (orderly : Orderly progress last) (resumes : Resumes progress text)
    (chain : row.IsChain fun left right => ¬(left = .sign ',' ∧ right = .sign ','))
    (single : progress.afterComma = true →
      (settled progress).head? ≠ some ',' ∧ row.head? ≠ some (.sign ',')) :
    settles progress text = true := by
  induction cut generalizing progress last with
  | nil => rfl
  | @blank character rest row isSpace cut ih =>
      have reached := step_blank resumes isSpace
      have orderlyThere := orderly_step orderly character
      rw [reached] at orderlyThere
      have notBracket : character ≠ ']' ∧ character ≠ '\x7d' := by
        constructor <;> rintro rfl <;> simp [isBlank] at isSpace
      rw [settles, drops_none notBracket.1 notBracket.2, reached,
        ih orderlyThere (resumes_code rfl _) chain single]
      rfl
  | @comment inner rest row onLine ends cut ih =>
      have reached := step_comment resumes
      have orderlyThere := orderly_step orderly '#'
      rw [reached] at orderlyThere
      have passed := @comment_passed { progress with place := .comment } inner onLine rfl
      rw [settles, drops_none (by decide) (by decide), reached, settles_append, passed.1, passed.2,
        ih orderlyThere ends chain single]
      rfl
  | @literal mark body rest row quotes closed cut ih =>
      have passed := literal_passed resumes quotes (carries_literal quotes closed)
      have orderlyThere := orderly_foldl orderly (mark :: body)
      rw [passed.1] at orderlyThere
      rw [← List.cons_append, settles_append, passed.1, passed.2]
      exact ih orderlyThere (resumes_after_literal closed) (List.isChain_cons.mp chain).2 (by simp)
  | @unclosed mark rest quotes endless =>
      obtain ⟨next, carries⟩ := carries_unclosed quotes endless
      exact (literal_passed resumes quotes carries).2
  | @sign character rest row notBlank notComment notMark cut ih =>
      have code := not_copies_of_resumes resumes
      have reads := reads_of_resumes resumes notBlank
      obtain ⟨front, behind, mute, codeThere, -⟩ := sign_front orderly code notBlank notComment notMark reads
      obtain ⟨apart, chain⟩ := List.isChain_cons.mp chain
      have keeps : dropsSecond progress character = false := by
        cases comma : progress.afterComma with
        | false => simp [dropsSecond, comma]
        | true => simp [dropsSecond, (single comma).1]
      rw [settles, keeps]
      apply ih (orderly_step orderly character) (resumes_code codeThere rest) chain
      intro comma
      obtain ⟨rfl, written⟩ := comma_of_reads reads notBlank notComment comma
      constructor
      · rw [written]
        intro head
        have before := orderly.comma code
        rw [head, decide_eq_true rfl] at before
        exact (single before).2 rfl
      · intro head
        exact apart _ head ⟨rfl, rfl⟩

/-- Compact text stays as it is if no two commas outside literals have but blanks and comments between them,
and has the string literals of the text that it was made of in any case. -/
theorem stable_with_same_literals (expression : List Char) :
    (CommasApart expression → text (text expression) = text expression) ∧
      literals (text expression) = literals expression := by
  constructor
  · intro apart
    have cut := cut_stretches (trim expression)
    rw [stretches_trim] at cut
    apply (text_text_iff expression).mpr
    exact settles_of_cut cut orderly_start (resumes_code rfl _) apart (by simp [start])
  · exact literals_text expression

/-- Commas, marks and a number sign in literals, a mark in a comment, an empty literal in front of another
one, and a comma that is dropped. -/
theorem stable_with_same_literals_sample :
    CommasApart "[ 'a,,' , # it's\n '' 'b' ,\t'''c' # \\''' , ''' , ]".toList ∧
      text (text "[ 'a,,' , # it's\n '' 'b' ,\t'''c' # \\''' , ''' , ]".toList) =
        "['a,,', '' 'b', '''c' # \\''' , ''']".toList ∧
      literals "['a,,', '' 'b', '''c' # \\''' , ''']".toList =
        ["'a,,'".toList, "''".toList, "'b'".toList, "'''c' # \\''' , '''".toList] := by
  have apart : CommasApart "[ 'a,,' , # it's\n '' 'b' ,\t'''c' # \\''' , ''' , ]".toList := by decide
  have compact : text "[ 'a,,' , # it's\n '' 'b' ,\t'''c' # \\''' , ''' , ]".toList =
      "['a,,', '' 'b', '''c' # \\''' , ''']".toList := by decide
  obtain ⟨stable, same⟩ :=
    stable_with_same_literals "[ 'a,,' , # it's\n '' 'b' ,\t'''c' # \\''' , ''' , ]".toList
  rw [compact] at same
  refine ⟨apart, (stable apart).trans compact, same.trans ?_⟩
  decide

end TaskCab.Source.Compact
