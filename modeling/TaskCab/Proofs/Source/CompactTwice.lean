import TaskCab.Proofs.Text.Trim
import TaskCab.Source.Compact

/-!
# Compacting twice

Compact text has no blanks at its ends. Compacting it again changes nothing, unless a comma has been
dropped that stood right behind another one: the second time that one is dropped too.
-/

namespace TaskCab.Source.Compact

open TaskCab.Text

def Place.copies : Place → Bool
  | .opened _ | .literal _ _ _ | .escape _ _ => true
  | .code | .comment | .openedTwice _ => false

def IsPlain (character : Char) : Prop :=
  isBlank character = false ∧ character ≠ '#' ∧ character ≠ ')' ∧ character ≠ ']' ∧
    character ≠ '\x7d' ∧ character ≠ ',' ∧ character ≠ ':'

/-- The text behind which a closing bracket goes. -/
def settled (progress : Progress) : List Char :=
  if progress.afterComma then progress.written.drop 1 else progress.written

inductive Reads (progress : Progress) : Char → Progress → Prop
  | blank {character : Char} (blank : isBlank character = true) :
      Reads progress character { progress with place := .code, spaced := true }
  | comment : Reads progress '#' { progress with place := .comment }
  | round : Reads progress ')' ⟨.code, false, false, ')' :: progress.written⟩
  | closing {character : Char} (closes : character = ']' ∨ character = '\x7d') :
      Reads progress character ⟨.code, false, false, character :: settled progress⟩
  | comma : Reads progress ',' ⟨.code, false, true, ',' :: progress.written⟩
  | colon : Reads progress ':' ⟨.code, false, false, ':' :: progress.written⟩
  | plain {character : Char} (plain : IsPlain character) :
      Reads progress character ⟨if isMark character then .opened character else .code, false, false,
        character :: (separator progress ++ progress.written)⟩

theorem reads_code (progress : Progress) (character : Char) :
    Reads progress character (codeStep progress character) := by
  unfold codeStep
  split
  next blank => exact .blank blank
  next notBlank =>
  split
  next comment => exact comment ▸ .comment
  next notComment =>
  split
  next round => exact round ▸ .round
  next notRound =>
  split
  next closing =>
    exact .closing (by simpa using closing)
  next notClosing =>
  split
  next colon =>
    have cases : character = ',' ∨ character = ':' := by simpa using colon
    rcases cases with rfl | rfl
    · exact .comma
    · exact .colon
  next notColon =>
    simp only [Bool.or_eq_true, decide_eq_true_eq, not_or] at notClosing notColon
    exact .plain ⟨by simpa using notBlank, notComment, notRound, notClosing.1, notClosing.2,
      notColon.1, notColon.2⟩

def Place.IsMarked : Place → Prop
  | .opened mark | .openedTwice mark | .literal mark _ _ | .escape mark _ => isMark mark = true
  | .code | .comment => True

theorem not_blank_of_is_mark {mark : Char} (quotes : isMark mark = true) : isBlank mark = false := by
  have cases : mark = '\'' ∨ mark = '"' := by simpa [isMark] using quotes
  rcases cases with rfl | rfl <;> decide

theorem ne_of_is_mark {mark other : Char} (quotes : isMark mark = true) (notMark : isMark other = false) :
    mark ≠ other := by
  rintro rfl
  rw [quotes] at notMark
  cases notMark

theorem literal_place_marked {mark : Char} (marked : isMark mark = true) (triple : Bool) (run : Nat)
    (character : Char) : (literalPlace mark triple run character).IsMarked := by
  unfold literalPlace
  split
  · exact marked
  split
  · split
    · trivial
    · exact marked
  · exact marked

theorem step_copies {progress : Progress} (copies : progress.place.copies = true)
    (marked : progress.place.IsMarked) (character : Char) :
    ∃ place : Place, place.IsMarked ∧
      (place.copies = true ∨ (place = .code ∧ isMark character = true) ∨
        (place = .openedTwice character ∧ isMark character = true)) ∧
      ∀ other : Progress, other.place = progress.place →
        step other character = ⟨place, false, false, character :: other.written⟩ := by
  obtain ⟨place, spaced, afterComma, written⟩ := progress
  cases place with
  | code | comment | openedTwice => simp [Place.copies] at copies
  | escape mark triple =>
      refine ⟨.literal mark triple 0, marked, .inl rfl, ?_⟩
      rintro ⟨_, _, _, _⟩ rfl
      rfl
  | literal mark triple run =>
      refine ⟨literalPlace mark triple run character, literal_place_marked marked .., ?_, ?_⟩
      · unfold literalPlace
        split
        · exact .inl rfl
        split
        next same =>
          split
          · exact .inr (.inl ⟨rfl, same ▸ marked⟩)
          · exact .inl rfl
        · exact .inl rfl
      · rintro ⟨_, _, _, _⟩ rfl
        rfl
  | opened mark =>
      by_cases same : character = mark
      · refine ⟨.openedTwice character, same ▸ marked, .inr (.inr ⟨rfl, same ▸ marked⟩), ?_⟩
        rintro ⟨_, _, _, _⟩ rfl
        simp [step, same]
      · refine ⟨literalPlace mark false 0 character, literal_place_marked marked .., .inl ?_, ?_⟩
        · unfold literalPlace
          split
          · rfl
          · rfl
        · rintro ⟨_, _, _, _⟩ rfl
          simp [step, same]

theorem is_mark_of_copied {place : Place} {character : Char}
    (places : place.copies = true ∨ (place = .code ∧ isMark character = true) ∨
      (place = .openedTwice character ∧ isMark character = true))
    (leaves : place.copies = false) : isMark character = true := by
  rcases places with copies | ⟨-, mark⟩ | ⟨-, mark⟩
  · simp [leaves] at copies
  · exact mark
  · exact mark

/-- What holds wherever compaction stands: its text starts with no blank, and ends with one only where
that is copied. -/
structure Orderly (progress : Progress) (last : Option Char) : Prop where
  marked : progress.place.IsMarked
  comma : progress.place.copies = false →
    progress.afterComma = decide (progress.written.head? = some ',')
  copies : progress.place.copies = true → progress.written ≠ [] ∧ progress.afterComma = false
  twice : ∀ mark, progress.place = .openedTwice mark →
    progress.written.head? = some mark ∧ progress.spaced = false
  first : ∀ character ∈ progress.written.getLast?, isBlank character = false
  last : ∀ character ∈ progress.written.head?, isBlank character = false ∨
    (progress.place.copies = true ∧ last = some character)

theorem orderly_start : Orderly start none :=
  ⟨trivial, fun _ => rfl, by simp [start, Place.copies], by simp [start], by simp [start],
    by simp [start]⟩

theorem first_cons {character : Char} {written : List Char} (notBlank : isBlank character = false)
    (first : ∀ other ∈ written.getLast?, isBlank other = false) :
    ∀ other ∈ (character :: written).getLast?, isBlank other = false := by
  intro other member
  rw [List.getLast?_cons] at member
  cases found : written.getLast? with
  | none =>
      obtain rfl : character = other := by simpa [found] using member
      exact notBlank
  | some last =>
      obtain rfl : last = other := by simpa [found] using member
      exact first last found

theorem orderly_cons {place : Place} {afterComma : Bool} {character : Char} {written : List Char}
    (marked : place.IsMarked) (single : ∀ mark, place ≠ .openedTwice mark)
    (comma : afterComma = decide (character = ',' ∧ place.copies = false))
    (notBlank : isBlank character = false)
    (first : ∀ other ∈ written.getLast?, isBlank other = false) :
    Orderly ⟨place, false, afterComma, character :: written⟩ (some character) := by
  refine ⟨marked, ?_, ?_, fun mark same => absurd same (single mark), first_cons notBlank first, ?_⟩
  · intro code
    simp [comma, code]
  · intro copies
    simp [comma, copies]
  · intro other member
    obtain rfl : character = other := by simpa using member
    exact .inl notBlank

theorem first_of_settled {progress : Progress}
    (first : ∀ character ∈ progress.written.getLast?, isBlank character = false) :
    ∀ character ∈ (settled progress).getLast?, isBlank character = false := by
  unfold settled
  split
  · intro character member
    cases written : progress.written with
    | nil => simp [written] at member
    | cons head rest =>
        rw [written, List.drop_one, List.tail_cons] at member
        apply first
        rw [written, List.getLast?_cons, member]
        rfl
  · exact first

theorem separator_cases {progress : Progress} {last : Option Char} (orderly : Orderly progress last)
    (code : progress.place.copies = false) :
    separator progress = [] ∨ (separator progress = [' '] ∧ progress.written ≠ []) := by
  unfold separator
  split
  next comma =>
    refine .inr ⟨rfl, ?_⟩
    intro none
    have head := orderly.comma code
    simp [none, comma] at head
  split
  · split
    · exact .inl rfl
    next head rest found =>
      split
      · exact .inl rfl
      · exact .inr ⟨rfl, by simp [found]⟩
  · exact .inl rfl

/-- Where characters are read as code, no blank has been written last. -/
theorem not_blank_of_code {progress : Progress} {last : Option Char} (orderly : Orderly progress last)
    (code : progress.place.copies = false) :
    ∀ other ∈ progress.written.head?, isBlank other = false := by
  intro other member
  rcases orderly.last other member with notBlank | ⟨copies, -⟩
  · exact notBlank
  · simp [code] at copies

theorem orderly_reads {progress next : Progress} {last : Option Char} {character : Char}
    (orderly : Orderly progress last) (code : progress.place.copies = false)
    (reads : Reads progress character next) : Orderly next (some character) := by
  cases reads with
  | blank | comment =>
      exact ⟨trivial, fun _ => orderly.comma code, by simp [Place.copies], by simp,
        orderly.first, fun other member => .inl (not_blank_of_code orderly code other member)⟩
  | round => exact orderly_cons trivial (by simp) (by simp) (by decide) orderly.first
  | closing closes =>
      refine orderly_cons trivial (by simp) ?_ ?_ (first_of_settled orderly.first) <;>
        rcases closes with rfl | rfl <;> decide
  | comma => exact orderly_cons trivial (by simp) rfl (by decide) orderly.first
  | colon => exact orderly_cons trivial (by simp) (by simp) (by decide) orderly.first
  | plain plain =>
      refine orderly_cons ?_ ?_ (by simp [plain.2.2.2.2.2.1]) plain.1 ?_
      · split
        next mark => exact mark
        next => trivial
      · intro mark
        split <;> simp
      · rcases separator_cases orderly code with none | ⟨one, nonempty⟩
        · rw [none]
          exact orderly.first
        · rw [one]
          intro other member
          obtain ⟨head, rest, written⟩ := List.exists_cons_of_ne_nil nonempty
          apply orderly.first other
          rw [written] at member ⊢
          simpa [List.getLast?_cons] using member

theorem orderly_step {progress : Progress} {last : Option Char} (orderly : Orderly progress last)
    (character : Char) : Orderly (step progress character) (some character) := by
  by_cases copies : progress.place.copies = true
  · obtain ⟨place, marked, places, copied⟩ := step_copies copies orderly.marked character
    rw [copied progress rfl]
    have nonempty := (orderly.copies copies).1
    refine ⟨marked, ?_, by simp, ?_, ?_, ?_⟩
    · intro leaves
      have different : character ≠ ',' := ne_of_is_mark (is_mark_of_copied places leaves) rfl
      simp [different]
    · rintro mark rfl
      rcases places with copies | ⟨code, -⟩ | ⟨twice, -⟩
      · simp [Place.copies] at copies
      · simp at code
      · obtain rfl : mark = character := by simpa using twice
        exact ⟨rfl, rfl⟩
    · intro other member
      obtain ⟨head, rest, written⟩ := List.exists_cons_of_ne_nil nonempty
      apply orderly.first other
      rw [written] at member ⊢
      simpa [List.getLast?_cons] using member
    · intro other member
      obtain rfl : character = other := by simpa using member
      rcases places with copies | ⟨-, mark⟩ | ⟨-, mark⟩
      · exact .inr ⟨copies, rfl⟩
      · exact .inl (not_blank_of_is_mark mark)
      · exact .inl (not_blank_of_is_mark mark)
  · have code : progress.place.copies = false := by simpa using copies
    have reading := orderly_reads orderly code (reads_code progress character)
    cases place : progress.place with
    | opened | literal | escape => simp [place, Place.copies] at code
    | code =>
        have same : step progress character = codeStep progress character := by
          simp only [step, place]
        exact same ▸ reading
    | comment =>
        simp only [step, place]
        split
        · exact ⟨trivial, fun _ => orderly.comma code, by simp [Place.copies], by simp,
             orderly.first, fun other member => .inl (not_blank_of_code orderly code other member)⟩
        · exact ⟨orderly.marked, orderly.comma, orderly.copies, orderly.twice, orderly.first,
            fun other member => .inl (not_blank_of_code orderly code other member)⟩
    | openedTwice mark =>
        by_cases same : character = mark
        · have marked := orderly.marked
          rw [place] at marked
          obtain rfl := same
          have copied : step progress character =
              ⟨.literal character true 0, false, false, character :: progress.written⟩ := by
            simp [step, place]
          rw [copied]
          exact orderly_cons marked (by simp) (by simp [Place.copies]) (not_blank_of_is_mark marked)
            orderly.first
        · have read : step progress character = codeStep progress character := by
            simp [step, place, same]
          exact read ▸ reading

theorem orderly_foldl {progress : Progress} {last : Option Char} (orderly : Orderly progress last)
    (characters : List Char) :
    Orderly (characters.foldl step progress) (characters.getLast?.or last) := by
  induction characters generalizing progress last with
  | nil => exact orderly
  | cons character rest ih =>
      have later := ih (orderly_step orderly character)
      rw [List.getLast?_cons]
      cases found : rest.getLast? with
      | none =>
          rw [found] at later
          exact later
      | some other =>
          rw [found] at later
          exact later

/-- Compact text has no blank at its ends. -/
theorem trim_text (expression : List Char) : trim (text expression) = text expression := by
  have orderly := orderly_foldl orderly_start (trim expression)
  cases written : (text expression) with
  | nil => rfl
  | cons first rest =>
      have same : ((trim expression).foldl step start).written = (first :: rest).reverse := by
        rw [← written, text, List.reverse_reverse]
      obtain ⟨last, isLast⟩ : ∃ last, (first :: rest).getLast? = some last :=
        ⟨_, List.getLast?_eq_some_getLast (by simp)⟩
      refine @trim_of_ends _ first last rfl ?_ isLast ?_
      · apply orderly.first first
        rw [same, List.getLast?_reverse]
        rfl
      · rcases orderly.last last (by rw [same, List.head?_reverse]; exact isLast) with
          notBlank | ⟨-, isEnd⟩
        · exact notBlank
        · rw [Option.or_none] at isEnd
          exact not_blank_of_trim_end isEnd

/-- Whether a closing bracket drops a comma that stands right behind another one. -/
def dropsSecond (progress : Progress) (character : Char) : Bool :=
  progress.place = .code && (character = ']' || character = '\x7d') && progress.afterComma &&
    (settled progress).head? = some ','

def settles : Progress → List Char → Bool
  | _, [] => true
  | progress, character :: rest =>
      !dropsSecond progress character && settles (step progress character) rest

/-- Whether a comma is dropped only where no other comma stands right before it. -/
def Settled (expression : List Char) : Prop := settles start (trim expression) = true

instance : DecidablePred Settled :=
  fun expression => inferInstanceAs (Decidable (settles start (trim expression) = true))

/-- Whether a text is another one, or is shorter, with the same character last. -/
def Lags (strict : Bool) (text other : List Char) : Prop :=
  text.head? = other.head? ∧ if strict then text = other else text.length < other.length

theorem lags_append {strict : Bool} {text other : List Char} (lags : Lags strict text other)
    (front : List Char) : Lags strict (front ++ text) (front ++ other) := by
  obtain ⟨head, lag⟩ := lags
  refine ⟨by rw [List.head?_append, List.head?_append, head], ?_⟩
  cases strict with
  | true => exact congrArg (front ++ ·) lag
  | false => simpa using lag

theorem eq_iff_of_lags {strict : Bool} {written other : List Char} (lags : Lags strict written other) :
    written = other ↔ strict = true := by
  obtain ⟨-, lag⟩ := lags
  cases strict with
  | true => exact iff_of_true lag rfl
  | false =>
      refine iff_of_false ?_ (by simp)
      rintro rfl
      exact absurd lag (lt_irrefl _)

/-- Where a compaction stands that is given what another one has written, up to a comma that may still
be dropped. It does not see the blanks and comments that the other one does. -/
structure Follows (strict : Bool) (first second : Progress) : Prop where
  place : (second.place = first.place ∧ first.place ≠ .comment) ∨
    ((first.place = .code ∨ first.place = .comment) ∧ second.place = .code) ∨
    ((first.place = .comment ∨ first.place = .code ∧ (first.spaced = true ∨ first.afterComma = true)) ∧
      ∃ mark, second.place = .openedTwice mark ∧ isMark mark = true ∧
        (settled first).head? = some mark)
  unspaced : second.spaced = false
  comma : first.place.copies = false →
    second.afterComma = decide ((settled first).head? = some ',')
  lags : Lags strict second.written (settled first)

def ReadsCode (second : Progress) (character : Char) : Prop :=
  second.place = .code ∨ ∃ mark, second.place = .openedTwice mark ∧ character ≠ mark

theorem step_reads_code {second : Progress} {character : Char} (reads : ReadsCode second character) :
    step second character = codeStep second character := by
  rcases reads with code | ⟨mark, twice, different⟩
  · simp only [step, code]
  · simp [step, twice, different]

theorem code_step_plain (progress : Progress) {character : Char} (plain : IsPlain character) :
    codeStep progress character =
      ⟨if isMark character then .opened character else .code, false, false,
        character :: (separator progress ++ progress.written)⟩ := by
  obtain ⟨notBlank, notComment, notRound, notSquare, notCurly, notComma, notColon⟩ := plain
  simp [codeStep, notBlank, notComment, notRound, notSquare, notCurly, notComma, notColon]

theorem code_step_closing (progress : Progress) {character : Char}
    (closes : character = ']' ∨ character = '\x7d') :
    codeStep progress character = ⟨.code, false, false, character :: settled progress⟩ := by
  rcases closes with rfl | rfl <;> rfl

theorem settled_of_comma {progress : Progress} (comma : progress.afterComma = true)
    (head : progress.written.head? = some ',') : progress.written = ',' :: settled progress := by
  rw [settled, if_pos comma]
  cases written : progress.written with
  | nil => simp [written] at head
  | cons first rest =>
      obtain rfl : first = ',' := by simpa [written] using head
      rfl

theorem settled_of_other {progress : Progress} (noComma : progress.afterComma = false) :
    settled progress = progress.written := by
  simp [settled, noComma]

theorem follows_cons {strict afterComma : Bool} {place : Place} {character : Char}
    {written other : List Char} {first : Progress} (same : first.place = place)
    (noComment : place ≠ .comment) (new : settled first = character :: written)
    (comma : place.copies = false → afterComma = decide (character = ','))
    (lags : Lags strict (character :: other) (character :: written)) :
    Follows strict first ⟨place, false, afterComma, character :: other⟩ := by
  refine ⟨.inl ⟨same.symm, same ▸ noComment⟩, rfl, fun code => ?_, ?_⟩
  · rw [new]
    simpa using comma (same ▸ code)
  · rw [new]
    exact lags

/-- A second compaction stays where it is while the first one passes over a gap, or holds a comma
back. -/
theorem follows_gap {strict : Bool} {first second next : Progress} {last : Option Char}
    (orderly : Orderly first last) (follows : Follows strict first second)
    (code : first.place.copies = false) (same : settled next = settled first)
    (gap : next.place = .comment ∨
      next.place = .code ∧ (next.spaced = true ∨ next.afterComma = true)) :
    Follows strict next second := by
  obtain ⟨place, unspaced, comma, lags⟩ := follows
  have here : next.place = .code ∨ next.place = .comment := gap.symm.imp_left And.left
  refine ⟨.inr ?_, unspaced, fun _ => by rw [same]; exact comma code, by rw [same]; exact lags⟩
  rw [same]
  rcases place with ⟨placed, noComment⟩ | ⟨-, placed⟩ | ⟨-, twice⟩
  · cases place : first.place with
    | code => exact .inl ⟨here, placed.trans place⟩
    | comment => exact absurd place noComment
    | opened | literal | escape => simp [place, Place.copies] at code
    | openedTwice mark =>
        have marked := orderly.marked
        have isComma := orderly.comma code
        rw [place] at marked
        have head := (orderly.twice mark place).1
        have different : mark ≠ ',' := ne_of_is_mark marked rfl
        refine .inr ⟨gap, mark, placed.trans place, marked, ?_⟩
        rw [settled_of_other (by simp [isComma, head, different]), head]
  · exact .inl ⟨here, placed⟩
  · exact .inr ⟨gap, twice⟩

/-- A separator is due behind the mark of a literal. -/
theorem separator_behind_mark {first : Progress} {mark : Char}
    (due : first.spaced = true ∨ first.afterComma = true) (marked : isMark mark = true)
    (head : (settled first).head? = some mark) : separator first = [' '] := by
  unfold separator
  split
  · rfl
  next noComma =>
    have spaced : first.spaced = true := by simpa [noComma] using due
    rw [settled_of_other (by simpa using noComma)] at head
    rw [if_pos spaced]
    cases written : first.written with
    | nil => simp [written] at head
    | cons last rest =>
        obtain rfl : last = mark := by simpa [written] using head
        have closed : isOpening last = false := by
          have cases : last = '\'' ∨ last = '"' := by simpa [isMark] using marked
          rcases cases with rfl | rfl <;> decide
        simp [closed]

theorem separator_same_head {first : Progress} {written : List Char} (noComma : first.afterComma = false)
    (head : written.head? = first.written.head?) (separated : separator first ≠ []) :
    separator ⟨.code, true, false, written⟩ = separator first := by
  cases spaced : first.spaced with
  | false => simp [separator, noComma, spaced] at separated
  | true =>
      simp only [separator, noComma, spaced, if_true, Bool.false_eq_true, if_false]
      cases last : first.written with
      | nil =>
          obtain rfl : written = [] := by simpa [last] using head
          rfl
      | cons character rest =>
          obtain ⟨more, rfl⟩ : ∃ more, written = character :: more := by
            cases written with
            | nil => simp [last] at head
            | cons other more => exact ⟨more, by simpa [last] using head⟩
          rfl

/-- A closing bracket drops a second comma where one stands last in what is settled. -/
theorem drops_second_eq {first : Progress} {last : Option Char} {character : Char}
    (orderly : Orderly first last) (code : first.place.copies = false)
    (noComment : first.place ≠ .comment) (closes : character = ']' ∨ character = '\x7d') :
    dropsSecond first character = decide ((settled first).head? = some ',') := by
  have isComma := orderly.comma code
  cases comma : first.afterComma with
  | false =>
      rw [settled_of_other comma, ← isComma]
      simp [dropsSecond, comma]
  | true =>
      have place : first.place = .code := by
        cases place : first.place with
        | code => rfl
        | comment => exact absurd place noComment
        | opened | literal | escape => simp [place, Place.copies] at code
        | openedTwice mark =>
            have marked := orderly.marked
            rw [place] at marked
            obtain rfl : mark = ',' := by simpa [comma, (orderly.twice mark place).1] using isComma
            simp [Place.IsMarked, isMark] at marked
      have isClosing : (character = ']' || character = '\x7d') = true := by simpa using closes
      simp [dropsSecond, place, comma, isClosing]

theorem lags_closing {strict : Bool} {first second : Progress} {character : Char}
    (afterComma : second.afterComma = decide ((settled first).head? = some ','))
    (lags : Lags strict second.written (settled first)) :
    Lags (strict && !second.afterComma) (character :: settled second) (character :: settled first) := by
  cases comma : second.afterComma with
  | false =>
      rw [settled_of_other comma]
      simpa using lags_append lags [character]
  | true =>
      obtain ⟨head, lag⟩ := lags
      have isHead : (settled first).head? = some ',' := by simpa [comma] using afterComma
      have shorter : second.written.length ≤ (settled first).length := by
        cases strict with
        | true => exact le_of_eq (congrArg List.length lag)
        | false => exact le_of_lt lag
      refine ⟨rfl, ?_⟩
      rw [isHead] at head
      cases written : second.written with
      | nil => simp [written] at head
      | cons front rest =>
          rw [written, List.length_cons] at shorter
          have left : settled second = rest := by rw [settled, comma, written]; rfl
          rw [left]
          simpa using Nat.lt_of_succ_le shorter

theorem not_drops {first : Progress} {character : Char}
    (opens : character ≠ ']' ∧ character ≠ '\x7d') : dropsSecond first character = false := by
  simp [dropsSecond, opens.1, opens.2]

theorem reads_unmarked {strict : Bool} {first second : Progress} {last : Option Char}
    (orderly : Orderly first last) (follows : Follows strict first second)
    (code : first.place.copies = false) {character : Char} (noMark : isMark character = false) :
    ReadsCode second character := by
  have different {mark : Char} (marked : isMark mark = true) : character ≠ mark :=
    (ne_of_is_mark marked noMark).symm
  rcases follows.place with ⟨same, noComment⟩ | ⟨-, same⟩ | ⟨-, mark, same, marked, -⟩
  · cases here : first.place with
    | code => exact .inl (same.trans here)
    | comment => exact absurd here noComment
    | opened | literal | escape => simp [here, Place.copies] at code
    | openedTwice mark =>
        have marked := orderly.marked
        rw [here] at marked
        exact .inr ⟨mark, same.trans here, different marked⟩
  · exact .inl same
  · exact .inr ⟨mark, same, different marked⟩

theorem step_comma {strict : Bool} {first second : Progress} {last : Option Char}
    (orderly : Orderly first last) (follows : Follows strict first second)
    (code : first.place.copies = false) :
    step second ',' = ⟨.code, false, true, ',' :: second.written⟩ :=
  step_reads_code (reads_unmarked orderly follows code rfl)

/-- Two compactions, of which the first one is about to read a character as code. -/
structure Meets (strict : Bool) (first second : Progress) (last : Option Char) (character : Char) : Prop where
  orderly : Orderly first last
  follows : Follows strict first second
  code : first.place.copies = false
  noComment : first.place ≠ .comment
  single : ∀ mark, first.place = .openedTwice mark → character ≠ mark

/-- The second compaction follows the first one again when it has read what was settled on the way. -/
def CatchesUp (strict : Bool) (first second next : Progress) : Prop :=
  ∃ more : List Char, settled next = more.reverse ++ settled first ∧
    Follows strict next (more.foldl step second)

namespace Meets

variable {strict : Bool} {first second next : Progress} {last : Option Char} {character : Char}

theorem settled_comma (meets : Meets strict first second last character) (comma : first.afterComma = true) :
    first.written = ',' :: settled first := by
  have isComma := meets.orderly.comma meets.code
  exact settled_of_comma comma (by simpa [comma] using isComma)

theorem step_comma (meets : Meets strict first second last character) :
    step second ',' = ⟨.code, false, true, ',' :: second.written⟩ :=
  Compact.step_comma meets.orderly meets.follows meets.code

theorem reads_unseparated (meets : Meets strict first second last character)
    (none : separator first = []) : ReadsCode second character := by
  rcases meets.follows.place with ⟨same, -⟩ | ⟨-, same⟩ | ⟨due, mark, same, marked, head⟩
  · cases here : first.place with
    | code => exact .inl (same.trans here)
    | comment => exact absurd here meets.noComment
    | opened | literal | escape =>
        have code := meets.code
        simp [here, Place.copies] at code
    | openedTwice mark => exact .inr ⟨mark, same.trans here, meets.single mark here⟩
  · exact .inl same
  · have isDue : first.spaced = true ∨ first.afterComma = true := by
      rcases due with comment | ⟨-, due⟩
      · exact absurd comment meets.noComment
      · exact due
    simp [separator_behind_mark isDue marked head] at none

theorem behind_comma (meets : Meets strict first second last character) (noMark : isMark character = false)
    (noComma : character ≠ ',')
    (read : ∀ progress, codeStep progress character =
      ⟨.code, false, false, character :: progress.written⟩) :
    CatchesUp strict first second ⟨.code, false, false, character :: first.written⟩ := by
  have lags := meets.follows.lags
  cases comma : first.afterComma with
  | true =>
      have written := meets.settled_comma comma
      refine ⟨[',', character], congrArg (character :: ·) written, ?_⟩
      rw [List.foldl_cons, meets.step_comma, List.foldl_cons, List.foldl_nil]
      have behind : step ⟨.code, false, true, ',' :: second.written⟩ character =
          ⟨.code, false, false, character :: ',' :: second.written⟩ := read _
      rw [behind, written]
      exact follows_cons rfl (by simp) rfl (by simp [noComma]) (lags_append lags [character, ','])
  | false =>
      have reads := reads_unmarked meets.orderly meets.follows meets.code noMark
      refine ⟨[character], by simp [settled, comma], ?_⟩
      rw [List.foldl_cons, List.foldl_nil, step_reads_code reads, read, ← settled_of_other comma]
      exact follows_cons rfl (by simp) rfl (by simp [noComma]) (lags_append lags [character])

theorem at_comma (meets : Meets strict first second last ',') :
    CatchesUp strict first second ⟨.code, false, true, ',' :: first.written⟩ := by
  cases comma : first.afterComma with
  | true =>
      have written := meets.settled_comma comma
      refine ⟨[','], written, ?_⟩
      rw [List.foldl_cons, meets.step_comma, List.foldl_nil]
      exact follows_cons rfl (by simp) written (by simp) (lags_append meets.follows.lags [','])
  | false =>
      have same : settled ⟨.code, false, true, ',' :: first.written⟩ = settled first := by
        simp [settled, comma]
      exact ⟨[], same, follows_gap meets.orderly meets.follows meets.code same (.inr ⟨rfl, .inr rfl⟩)⟩

theorem at_closing (meets : Meets strict first second last character)
    (closes : character = ']' ∨ character = '\x7d') :
    CatchesUp (strict && !dropsSecond first character) first second
      ⟨.code, false, false, character :: settled first⟩ := by
  have afterComma := meets.follows.comma meets.code
  have noMark : isMark character = false := by rcases closes with rfl | rfl <;> decide
  have reads := reads_unmarked meets.orderly meets.follows meets.code noMark
  refine ⟨[character], rfl, ?_⟩
  rw [List.foldl_cons, List.foldl_nil, step_reads_code reads, code_step_closing second closes]
  refine follows_cons rfl (by simp) rfl (fun _ => ?_) ?_
  · rcases closes with rfl | rfl <;> decide
  · rw [drops_second_eq meets.orderly meets.code meets.noComment closes, ← afterComma]
    exact lags_closing afterComma meets.follows.lags

theorem at_plain (meets : Meets strict first second last character) (plain : IsPlain character) :
    CatchesUp strict first second ⟨if isMark character then .opened character else .code, false, false,
      character :: (separator first ++ first.written)⟩ := by
  have noComma : character ≠ ',' := plain.2.2.2.2.2.1
  have place : (if isMark character then Place.opened character else .code) ≠ .comment := by
    split <;> simp
  have lags := meets.follows.lags
  cases comma : first.afterComma with
  | true =>
      have separated : separator first = [' '] := by simp [separator, comma]
      rw [separated, meets.settled_comma comma]
      refine ⟨[',', ' ', character], rfl, ?_⟩
      have read : step ⟨.code, true, true, ',' :: second.written⟩ character = _ :=
        code_step_plain _ plain
      have spaced : step ⟨.code, false, true, ',' :: second.written⟩ ' ' =
          ⟨.code, true, true, ',' :: second.written⟩ := rfl
      rw [List.foldl_cons, meets.step_comma, List.foldl_cons, spaced, List.foldl_cons, List.foldl_nil,
        read]
      exact follows_cons rfl place rfl (by simp [noComma]) (lags_append lags [character, ' ', ','])
  | false =>
      have behind : second.afterComma = false := by
        rw [meets.follows.comma meets.code, settled_of_other comma, ← meets.orderly.comma meets.code, comma]
      rw [settled_of_other comma] at lags
      rcases separator_cases meets.orderly meets.code with none | ⟨one, nonempty⟩
      · rw [none]
        refine ⟨[character], by rw [settled_of_other comma]; rfl, ?_⟩
        have unseparated : separator second = [] := by simp [separator, behind, meets.follows.unspaced]
        rw [List.foldl_cons, List.foldl_nil, step_reads_code (meets.reads_unseparated none),
          code_step_plain _ plain, unseparated]
        exact follows_cons rfl place rfl (by simp [noComma]) (lags_append lags [character])
      · rw [one]
        refine ⟨[' ', character], by rw [settled_of_other comma]; rfl, ?_⟩
        have spaced : step second ' ' = ⟨.code, true, false, second.written⟩ := by
          rw [step_reads_code (reads_unmarked meets.orderly meets.follows meets.code rfl), ← behind]
          rfl
        have read : step ⟨.code, true, false, second.written⟩ character = _ :=
          code_step_plain _ plain
        have separated : separator ⟨.code, true, false, second.written⟩ = [' '] := by
          rw [← one]
          exact separator_same_head comma lags.1 (by rw [one]; simp)
        rw [List.foldl_cons, spaced, List.foldl_cons, List.foldl_nil, read, separated]
        exact follows_cons rfl place rfl (by simp [noComma]) (lags_append lags [character, ' '])

/-- What the first compaction settles when it reads a character as code brings the second one up. -/
theorem catches_up (meets : Meets strict first second last character) (reads : Reads first character next) :
    CatchesUp (strict && !dropsSecond first character) first second next := by
  have kept (opens : character ≠ ']' ∧ character ≠ '\x7d') :
      (strict && !dropsSecond first character) = strict := by
    simp [not_drops opens]
  have stays := @follows_gap strict first second next last meets.orderly meets.follows meets.code
  cases reads with
  | blank blank =>
      rw [kept ⟨by rintro rfl; simp [isBlank] at blank, by rintro rfl; simp [isBlank] at blank⟩]
      exact ⟨[], rfl, stays rfl (.inr ⟨rfl, .inl rfl⟩)⟩
  | comment =>
      rw [kept (by decide)]
      exact ⟨[], rfl, stays rfl (.inl rfl)⟩
  | round | colon =>
      rw [kept (by decide)]
      exact meets.behind_comma (by decide) (by decide) fun _ => rfl
  | comma =>
      rw [kept (by decide)]
      exact meets.at_comma
  | closing closes => exact meets.at_closing closes
  | plain plain =>
      rw [kept ⟨plain.2.2.2.1, plain.2.2.2.2.1⟩]
      exact meets.at_plain plain

end Meets

section

variable {strict : Bool} {first second : Progress} {last : Option Char}

theorem follows_copied (orderly : Orderly first last) (follows : Follows strict first second)
    (copies : first.place.copies = true) (character : Char) :
    CatchesUp strict first second (step first character) := by
  obtain ⟨place, marked, places, copied⟩ := step_copies copies orderly.marked character
  have same : second.place = first.place := by
    rcases follows.place with ⟨same, -⟩ | ⟨code | comment, -⟩ | ⟨comment | ⟨code, -⟩, -⟩
    · exact same
    all_goals simp_all [Place.copies]
  have settledFirst := settled_of_other (orderly.copies copies).2
  have lags := follows.lags
  rw [settledFirst] at lags
  rw [copied first rfl]
  refine ⟨[character], by rw [settledFirst]; rfl, ?_⟩
  rw [List.foldl_cons, List.foldl_nil, copied second same]
  refine follows_cons rfl ?_ rfl ?_ (lags_append lags [character])
  · rcases places with copies | ⟨rfl, -⟩ | ⟨rfl, -⟩
    · rintro rfl
      simp [Place.copies] at copies
    · simp
    · simp
  · intro leaves
    have different : character ≠ ',' := ne_of_is_mark (is_mark_of_copied places leaves) rfl
    simp [different]

/-- The third mark in a row opens the literal for both. -/
theorem follows_third {mark : Char} (orderly : Orderly first last) (follows : Follows strict first second)
    (place : first.place = .openedTwice mark) : CatchesUp strict first second (step first mark) := by
  have same : second.place = .openedTwice mark := by
    rcases follows.place with ⟨same, -⟩ | ⟨code | comment, -⟩ | ⟨comment | ⟨code, -⟩, -⟩
    · exact same.trans place
    all_goals simp_all
  have copied {progress : Progress} (twice : progress.place = .openedTwice mark) :
      step progress mark = ⟨.literal mark true 0, false, false, mark :: progress.written⟩ := by
    simp [step, twice]
  have marked := orderly.marked
  rw [place] at marked
  have noComma : first.afterComma = false := by
    rw [orderly.comma (by simp [place, Place.copies]), (orderly.twice mark place).1]
    simpa using ne_of_is_mark marked rfl
  have lags := follows.lags
  rw [settled_of_other noComma] at lags
  rw [copied place]
  refine ⟨[mark], by rw [settled_of_other noComma]; rfl, ?_⟩
  rw [List.foldl_cons, List.foldl_nil, copied same]
  exact follows_cons rfl (by simp) rfl (by simp [Place.copies]) (lags_append lags [mark])

theorem follows_step (orderly : Orderly first last) (follows : Follows strict first second)
    (character : Char) :
    CatchesUp (strict && !dropsSecond first character) first second (step first character) := by
  have elsewhere (notCode : first.place ≠ .code) :
      (strict && !dropsSecond first character) = strict := by
    simp [dropsSecond, notCode]
  by_cases copies : first.place.copies = true
  · rw [elsewhere (by intro code; simp [code, Place.copies] at copies)]
    exact follows_copied orderly follows copies character
  have code : first.place.copies = false := by simpa using copies
  have reading (noComment : first.place ≠ .comment)
      (single : ∀ mark, first.place = .openedTwice mark → character ≠ mark) :=
    (Meets.mk orderly follows code noComment single).catches_up (reads_code first character)
  cases place : first.place with
  | opened | literal | escape => simp [place, Place.copies] at code
  | code =>
      have same : step first character = codeStep first character := by simp only [step, place]
      rw [same]
      exact reading (by simp [place]) (by simp [place])
  | comment =>
      rw [elsewhere (by simp [place])]
      simp only [step, place]
      split
      · exact ⟨[], rfl, follows_gap orderly follows code rfl (.inr ⟨rfl, .inl rfl⟩)⟩
      · exact ⟨[], rfl, follows_gap orderly follows code rfl (.inl place)⟩
  | openedTwice mark =>
      by_cases isThird : character = mark
      · rw [elsewhere (by simp [place]), isThird]
        exact follows_third orderly follows place
      · have same : step first character = codeStep first character := by
          simp [step, place, isThird]
        rw [same]
        refine reading (by simp [place]) ?_
        rintro other twice rfl
        rw [place] at twice
        exact isThird (Place.openedTwice.inj twice).symm

theorem follows_foldl (orderly : Orderly first last) (follows : Follows strict first second)
    (characters : List Char) :
    CatchesUp (strict && settles first characters) first second (characters.foldl step first) := by
  induction characters generalizing strict first second last with
  | nil => exact ⟨[], rfl, by simpa [settles] using follows⟩
  | cons character rest ih =>
      obtain ⟨front, settledFront, follows⟩ := follows_step orderly follows character
      obtain ⟨more, settledMore, follows⟩ := ih (orderly_step orderly character) follows
      refine ⟨front ++ more, ?_, ?_⟩
      · rw [List.foldl_cons, settledMore, settledFront]
        simp
      · rw [List.foldl_append, List.foldl_cons, settles, ← Bool.and_assoc]
        exact follows

end

theorem follows_start : Follows true start start :=
  ⟨.inl ⟨rfl, by simp [start]⟩, rfl, fun _ => rfl, rfl, rfl⟩

/-- Compacting twice is compacting once, exactly where no bracket drops a comma behind another one. -/
theorem text_text_iff (expression : List Char) :
    text (text expression) = text expression ↔ Settled expression := by
  have orderly := orderly_foldl orderly_start (trim expression)
  obtain ⟨more, new, follows⟩ := follows_foldl orderly_start follows_start (trim expression)
  have twice : text (text expression) = ((text expression).foldl step start).written.reverse := by
    rw [text, trim_text]
  have once : text expression = ((trim expression).foldl step start).written.reverse := rfl
  generalize (trim expression).foldl step start = first at orderly new follows once
  obtain rfl : more = (settled first).reverse := by
    have none : settled start = [] := rfl
    rw [new, none, List.append_nil, List.reverse_reverse]
  rw [Bool.true_and] at follows
  rw [Settled, ← eq_iff_of_lags follows.lags, twice]
  cases comma : first.afterComma with
  | true =>
      have copies : first.place.copies = false := by
        by_contra copies
        simpa [comma] using (orderly.copies (by simpa using copies)).2
      have head := orderly.comma copies
      have written := settled_of_comma comma (by simpa [comma] using head)
      rw [once, written, List.reverse_cons, List.foldl_append, List.foldl_cons, List.foldl_nil,
        step_comma orderly follows copies]
      simp
  | false =>
      rw [once, ← settled_of_other comma]
      exact List.reverse_inj

end TaskCab.Source.Compact
