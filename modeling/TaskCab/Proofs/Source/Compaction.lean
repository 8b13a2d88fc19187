import TaskCab.Proofs.Source.LineLexemes
import TaskCab.Source.Compact

/-!
# Compaction of lexemes

Compacting a text character by character comes to the same as taking its lexemes one after another: gaps
become one space, some of them none, and a comma is held back until it is known what comes after it.
-/

namespace TaskCab.Source.Compact

/-- What has been written last: an opening bracket or nothing, a comma that may still be dropped, or
anything else. -/
inductive Behind where
  | opening
  | comma
  | other
deriving DecidableEq

/-- Where the compaction of lexemes stands, and whether a gap comes before the next one. -/
structure State where
  behind : Behind
  spaced : Bool
deriving DecidableEq

inductive Role where
  | space
  | joined
  | closing
  | round
  | comma
  | colon
  | opening
  | ordinary
deriving DecidableEq

def role (lexeme : Lexeme) : Role :=
  match lexeme.kind with
  | .blank | .newline | .comment => .space
  | .joinedLine => .joined
  | .unseen => if lexeme.text = ['\x0b'] then .space else .ordinary
  | .symbol =>
      if lexeme.text = [']'] ∨ lexeme.text = ['\x7d'] then .closing
      else if lexeme.text = [')'] then .round
      else if lexeme.text = [','] then .comma
      else if lexeme.text = [':'] ∨ lexeme.text = [':', '='] then .colon
      else if lexeme.text = ['('] ∨ lexeme.text = ['['] ∨ lexeme.text = ['\x7b'] then .opening
      else .ordinary
  | _ => .ordinary

def commaLexeme : Lexeme := ⟨.symbol, [',']⟩

def spaceLexeme : Lexeme := ⟨.blank, [' ']⟩

def backslashLexeme : Lexeme := ⟨.stray, ['\\']⟩

def pending (state : State) : List Lexeme :=
  match state.behind with
  | .comma => [commaLexeme]
  | _ => []

def gap (state : State) : List Lexeme :=
  match state.behind, state.spaced with
  | .comma, _ => [commaLexeme, spaceLexeme]
  | .other, true => [spaceLexeme]
  | _, _ => []

def emitted (state : State) (lexeme : Lexeme) : List Lexeme :=
  match role lexeme with
  | .space => []
  | .joined => gap state ++ [backslashLexeme]
  | .closing => [lexeme]
  | .round | .colon => pending state ++ [lexeme]
  | .comma => pending state
  | .opening | .ordinary => gap state ++ [lexeme]

def advance (state : State) (lexeme : Lexeme) : State :=
  match role lexeme with
  | .space => ⟨state.behind, true⟩
  | .joined => ⟨.other, true⟩
  | .closing | .round | .colon | .ordinary => ⟨.other, false⟩
  | .comma => ⟨.comma, false⟩
  | .opening => ⟨.opening, false⟩

/-- The lexemes that are written for some, up to a comma that is held back. -/
def tidy : State → List Lexeme → List Lexeme
  | _, [] => []
  | state, lexeme :: rest => emitted state lexeme ++ tidy (advance state lexeme) rest

def arrive (state : State) (lexemes : List Lexeme) : State := lexemes.foldl advance state

def initial : State := ⟨.opening, false⟩

/-- Whether a progress stands where the compaction of lexemes does, with a text written behind it. -/
structure Written (progress : Progress) (state : State) (written : List Char) : Prop where
  spaced : if progress.place = .comment then state.spaced = true
    else progress.spaced = state.spaced
  afterComma : progress.afterComma = decide (state.behind = .comma)
  text : progress.written = (Lexeme.texts (pending state)).reverse ++ written
  behind : state.behind ≠ .comma →
    (state.behind = .opening ↔ ∀ last ∈ written.head?, isOpening last = true)

/-- Whether the characters of a text are read as code from its start. -/
def Resumes (progress : Progress) (after : List Char) : Prop :=
  match progress.place with
  | .code => True
  | .openedTwice mark => after.head? ≠ some mark
  | .comment => ∀ character ∈ after.head?, character = '\n'
  | _ => False

theorem written_start : Written start initial [] :=
  ⟨rfl, rfl, rfl, by simp [initial]⟩

theorem resumes_code {progress : Progress} (code : progress.place = .code) (after : List Char) :
    Resumes progress after := by
  rw [Resumes, code]
  trivial

theorem step_resumed {progress : Progress} {character : Char} {rest : List Char}
    (resumes : Resumes progress (character :: rest)) (noComment : progress.place ≠ .comment) :
    step progress character = codeStep progress character := by
  unfold Resumes at resumes
  unfold step
  cases place : progress.place with
  | code => rfl
  | comment => exact absurd place noComment
  | openedTwice mark =>
      rw [place] at resumes
      have different : character ≠ mark := by simpa using resumes
      simp [different]
  | opened mark => rw [place] at resumes; exact resumes.elim
  | literal mark triple run => rw [place] at resumes; exact resumes.elim
  | escape mark triple => rw [place] at resumes; exact resumes.elim

def isOrdinary (character : Char) : Bool :=
  !Text.isBlank character && !isMark character && !"#)]\x7d,:".toList.contains character

theorem code_step_ordinary (progress : Progress) {character : Char}
    (ordinary : isOrdinary character = true) :
    codeStep progress character =
      ⟨.code, false, false, character :: (separator progress ++ progress.written)⟩ := by
  simp only [isOrdinary, Bool.and_eq_true, Bool.not_eq_true'] at ordinary
  obtain ⟨⟨notBlank, notMark⟩, none⟩ := ordinary
  have others : ¬(character = '#' ∨ character = ')' ∨ character = ']' ∨ character = '\x7d' ∨
      character = ',' ∨ character = ':') := by
    intro cases
    rw [← Bool.not_eq_true, List.contains_iff_mem] at none
    apply none
    simpa using cases
  simp only [not_or] at others
  simp [codeStep, notBlank, notMark, others]

theorem foldl_ordinary {run : List Char} (ordinary : ∀ character ∈ run, isOrdinary character = true)
    (written : List Char) :
    run.foldl step ⟨.code, false, false, written⟩ = ⟨.code, false, false, run.reverse ++ written⟩ := by
  induction run generalizing written with
  | nil => rfl
  | cons character run ih =>
      rw [List.foldl_cons]
      have one : step ⟨.code, false, false, written⟩ character =
          ⟨.code, false, false, character :: written⟩ :=
        code_step_ordinary _ (ordinary character (.head _))
      rw [one, ih fun c member => ordinary c (.tail _ member)]
      simp

/-- The separator goes behind the comma that was held back. -/
theorem separator_written {progress : Progress} {state : State} {written : List Char}
    (stands : Written progress state written) (noComment : progress.place ≠ .comment) :
    separator progress ++ progress.written = (Lexeme.texts (gap state)).reverse ++ written := by
  obtain ⟨spaced, afterComma, same, behind⟩ := stands
  rw [if_neg noComment] at spaced
  obtain ⟨place, isSpaced, isComma, text⟩ := progress
  dsimp only at spaced afterComma same
  obtain ⟨last, wasSpaced⟩ := state
  obtain rfl : isSpaced = wasSpaced := spaced
  subst same
  cases last with
  | comma =>
      simp [separator, afterComma, gap, pending, Lexeme.texts, commaLexeme, spaceLexeme]
  | opening =>
      have opens := (behind (by simp)).mp rfl
      cases isSpaced with
      | false => simp [separator, afterComma, gap, pending, Lexeme.texts]
      | true =>
          cases written with
          | nil => simp [separator, afterComma, gap, pending, Lexeme.texts]
          | cons first rest =>
              have isOpening := opens first rfl
              simp [separator, afterComma, gap, pending, Lexeme.texts, isOpening]
  | other =>
      cases isSpaced with
      | false => simp [separator, afterComma, gap, pending, Lexeme.texts]
      | true =>
          have noOpening := (behind (by simp)).not.mp (by simp)
          cases written with
          | nil => simp at noOpening
          | cons first rest =>
              have closed : isOpening first = false := by simpa using noOpening
              simp [separator, afterComma, gap, pending, Lexeme.texts, closed, spaceLexeme]

section Literals

open Quoted

variable {style : Style}

/-- Whether the closing marks that were read last do not go on to a closing quote. -/
def RunEnds (style : Style) (run : Nat) (body : List Char) : Prop :=
  style.triple = true → run = 0 ∨ (run = 1 ∧ ¬[style.mark, style.mark] <+: body) ∨
    (run = 2 ∧ ¬[style.mark] <+: body)

theorem run_ends_zero (body : List Char) : RunEnds style 0 body := fun _ => .inl rfl

theorem step_literal (mark : Char) (triple : Bool) (run : Nat) (written : List Char)
    (character : Char) :
    step ⟨.literal mark triple run, false, false, written⟩ character =
      ⟨literalPlace mark triple run character, false, false, character :: written⟩ := rfl

theorem literal_place_other {mark character : Char} (triple : Bool) (run : Nat)
    (notBackslash : character ≠ '\\') (different : character ≠ mark) :
    literalPlace mark triple run character = .literal mark triple 0 := by
  rw [literalPlace, if_neg notBackslash, if_neg different]

theorem copy_quiet {carried : List Char} (quote : IsQuote style.mark)
    (quiet : ∀ character ∈ carried, IsQuiet character) (written : List Char) :
    carried.foldl step ⟨.literal style.mark style.triple 0, false, false, written⟩ =
      ⟨.literal style.mark style.triple 0, false, false, carried.reverse ++ written⟩ := by
  induction carried generalizing written with
  | nil => rfl
  | cons character carried ih =>
      have isQuiet := quiet character (.head _)
      rw [List.foldl_cons, step_literal,
        literal_place_other _ _ isQuiet.2.2 (ne_quote_of_quiet quote isQuiet),
        ih fun c member => quiet c (.tail _ member)]
      simp

theorem run_ends_next {run : Nat} {rest : List Char} (triple : style.triple = true)
    (ends : RunEnds style run (style.mark :: rest))
    (notClosing : closes style (style.mark :: rest) = false) :
    run ≠ 2 ∧ RunEnds style (run + 1) rest := by
  rcases ends triple with rfl | ⟨rfl, noTwo⟩ | ⟨rfl, noOne⟩
  · refine ⟨by decide, fun _ => .inr (.inl ⟨rfl, ?_⟩)⟩
    rintro ⟨more, rfl⟩
    simp [closes, triple] at notClosing
  · refine ⟨by decide, fun _ => .inr (.inr ⟨rfl, ?_⟩)⟩
    rintro ⟨more, rfl⟩
    exact noTwo ⟨more, rfl⟩
  · exact absurd ⟨rest, rfl⟩ noOne

theorem copy_closing (quote : IsQuote style.mark) {run : Nat} (ends : RunEnds style run (closing style))
    (written : List Char) :
    (closing style).foldl step ⟨.literal style.mark style.triple run, false, false, written⟩ =
      ⟨.code, false, false, (closing style).reverse ++ written⟩ := by
  have notBackslash := quote_ne_backslash quote
  by_cases triple : style.triple = true
  · have front : closing style = [style.mark, style.mark, style.mark] := by
      rw [closing, if_pos triple]
    rw [front] at ends ⊢
    obtain rfl : run = 0 := by
      rcases ends triple with zero | ⟨-, noTwo⟩ | ⟨-, noOne⟩
      · exact zero
      · exact absurd ⟨[style.mark], rfl⟩ noTwo
      · exact absurd ⟨[style.mark, style.mark], rfl⟩ noOne
    simp [step_literal, literalPlace, notBackslash, triple]
  · have front : closing style = [style.mark] := by rw [closing, if_neg triple]
    rw [front]
    simp [step_literal, literalPlace, notBackslash, triple]

/-- A body is copied, and the literal ends with it. -/
theorem copy_body {plain : Bool} {body : List Char} (isBody : Body style plain body)
    (quote : IsQuote style.mark) {run : Nat} (ends : RunEnds style run body) (written : List Char) :
    body.foldl step ⟨.literal style.mark style.triple run, false, false, written⟩ =
      ⟨.code, false, false, body.reverse ++ written⟩ := by
  have notBackslash := quote_ne_backslash quote
  induction isBody generalizing run written with
  | close => exact copy_closing quote ends written
  | @plain plain character rest notNull notBackslash notClosing lineEnd body ih =>
      rw [List.foldl_cons, step_literal]
      by_cases isMark : character = style.mark
      · obtain rfl := isMark
        have triple : style.triple = true := by
          by_contra single
          simp [closes, single] at notClosing
        obtain ⟨notTwo, next⟩ := run_ends_next triple ends notClosing
        have place : literalPlace style.mark style.triple run style.mark =
            .literal style.mark style.triple (run + 1) := by
          simp [literalPlace, notBackslash, triple, notTwo]
        rw [place, ih next]
        simp
      · rw [literal_place_other _ _ notBackslash isMark, ih (run_ends_zero rest)]
        simp
  | @escape plain carried rest length alone quiet body ih =>
      rw [List.foldl_cons, step_literal]
      have place : literalPlace style.mark style.triple run '\\' =
          .escape style.mark style.triple := rfl
      rw [place]
      cases carried with
      | nil =>
          -- The character after a lone backslash is copied as it would be within the literal.
          have later := ih (run_ends_zero rest) ('\\' :: written)
          cases rest with
          | nil => simp at later
          | cons character rest =>
              obtain ⟨different, noBackslash⟩ := alone rfl character rfl
              rw [List.foldl_cons, step_literal, literal_place_other _ _ noBackslash different]
                at later
              rw [List.nil_append, List.foldl_cons]
              exact later.trans (by simp)
      | cons character carried =>
          have skipped : step ⟨.escape style.mark style.triple, false, false, '\\' :: written⟩
              character = ⟨.literal style.mark style.triple 0, false, false,
                character :: '\\' :: written⟩ := rfl
          rw [List.tail_cons] at quiet
          rw [List.cons_append, List.foldl_cons, skipped, List.foldl_append, copy_quiet quote quiet,
            ih (run_ends_zero rest)]
          simp

theorem ordinary_of_flag {character : Char} (flag : isFlag character = true) :
    isOrdinary character = true := by
  have all : ∀ letter ∈ "rRuUbBfF".toList, isOrdinary letter = true := by decide
  exact all character (List.contains_iff_mem.mp flag)

theorem code_step_mark (progress : Progress) {mark : Char} (quotes : Quoted.isMark mark = true) :
    codeStep progress mark =
      ⟨if Compact.isMark mark then .opened mark else .code, false, false,
        mark :: (separator progress ++ progress.written)⟩ := by
  have cases : mark = '\'' ∨ mark = '"' ∨ mark = '`' := by
    simpa [Quoted.isMark, or_assoc] using quotes
  rcases cases with rfl | rfl | rfl <;> rfl

theorem mark_of_quote {mark : Char} (quote : IsQuote mark) :
    Quoted.isMark mark = true ∧ Compact.isMark mark = true := by
  rcases quote with same | same <;> rw [same] <;> exact ⟨rfl, rfl⟩

theorem copy_opening {flags after : List Char} {mark : Char}
    (areFlags : ∀ flag ∈ flags, isFlag flag = true) (quotes : Quoted.isMark mark = true)
    {progress : Progress} (resumes : Resumes progress (flags ++ mark :: after))
    (noComment : progress.place ≠ .comment) :
    (flags ++ [mark]).foldl step progress =
      ⟨if Compact.isMark mark then .opened mark else .code, false, false,
        (flags ++ [mark]).reverse ++ (separator progress ++ progress.written)⟩ := by
  cases flags with
  | nil =>
      rw [List.nil_append, List.foldl_cons, List.foldl_nil, step_resumed resumes noComment,
        code_step_mark progress quotes]
      rfl
  | cons flag flags =>
      have ordinary := fun character member => ordinary_of_flag (areFlags character member)
      rw [List.cons_append, List.foldl_cons, step_resumed resumes noComment,
        code_step_ordinary _ (ordinary flag (.head _)), List.foldl_append,
        foldl_ordinary fun c member => ordinary c (.tail _ member), List.foldl_cons, List.foldl_nil,
        step_resumed (resumes_code rfl [mark]) (by simp), code_step_mark _ quotes]
      simp [separator]

theorem copy_triple {flags body after : List Char} (areFlags : ∀ flag ∈ flags, isFlag flag = true)
    (quote : IsQuote style.mark) (isBody : Body style false body) (triple : style.triple = true)
    {progress : Progress} (resumes : Resumes progress (flags ++ (closing style ++ body) ++ after))
    (noComment : progress.place ≠ .comment) :
    (flags ++ (closing style ++ body)).foldl step progress =
      ⟨.code, false, false,
        (flags ++ (closing style ++ body)).reverse ++ (separator progress ++ progress.written)⟩ := by
  have front : closing style = [style.mark, style.mark, style.mark] := by rw [closing, if_pos triple]
  rw [front] at resumes ⊢
  have opened := @copy_opening flags (style.mark :: style.mark :: (body ++ after)) style.mark
    areFlags (mark_of_quote quote).1 progress (by simpa using resumes) noComment
  rw [if_pos (mark_of_quote quote).2] at opened
  have copied := copy_body isBody quote (run_ends_zero body)
    (style.mark :: style.mark :: ((flags ++ [style.mark]).reverse ++
      (separator progress ++ progress.written)))
  rw [triple] at copied
  have split : flags ++ ([style.mark, style.mark, style.mark] ++ body) =
      (flags ++ [style.mark]) ++ style.mark :: style.mark :: body := by simp
  rw [split, List.foldl_append, opened, List.foldl_cons, List.foldl_cons]
  simp only [step, if_true]
  rw [copied]
  simp

/-- A literal with one mark on each side may turn out to start with three, if it is empty. -/
theorem copy_single {flags body after : List Char} (areFlags : ∀ flag ∈ flags, isFlag flag = true)
    (quote : IsQuote style.mark) (isBody : Body style false body) (single : style.triple = false)
    {progress : Progress} (resumes : Resumes progress (flags ++ (closing style ++ body) ++ after))
    (noComment : progress.place ≠ .comment) :
    (flags ++ (closing style ++ body)).foldl step progress =
      ⟨if body = closing style then .openedTwice style.mark else .code, false, false,
        (flags ++ (closing style ++ body)).reverse ++ (separator progress ++ progress.written)⟩ := by
  have front : closing style = [style.mark] := by rw [closing, single]; rfl
  rw [front] at resumes ⊢
  have opened := @copy_opening flags (body ++ after) style.mark areFlags (mark_of_quote quote).1 progress
    (by simpa using resumes) noComment
  rw [if_pos (mark_of_quote quote).2] at opened
  have split : flags ++ ([style.mark] ++ body) = (flags ++ [style.mark]) ++ body := by simp
  rw [split, List.foldl_append, opened]
  cases body with
  | nil =>
      have bound := closing_le_body isBody
      simp [front] at bound
  | cons character rest =>
      by_cases isClosing : character = style.mark
      · have closed := eq_closing_of_head isBody quote single (congrArg some isClosing)
        rw [closed, front]
        simp [step]
      · have copied := copy_body isBody quote (run_ends_zero (character :: rest))
          ((flags ++ [style.mark]).reverse ++ (separator progress ++ progress.written))
        rw [single, List.foldl_cons, step_literal] at copied
        have notEmpty : character :: rest ≠ [style.mark] :=
          fun same => isClosing (List.cons.inj same).1
        rw [List.foldl_cons, if_neg notEmpty]
        simp only [step, if_neg isClosing]
        rw [copied]
        simp

/-- A literal is copied behind the separator. -/
theorem copy_literal {flags body literal after : List Char}
    (isLiteral : IsTextLiteral style flags body literal) {progress : Progress}
    (resumes : Resumes progress (literal ++ after)) (noComment : progress.place ≠ .comment) :
    ∃ place, literal.foldl step progress =
        ⟨place, false, false, literal.reverse ++ (separator progress ++ progress.written)⟩ ∧
      (place = .code ∨ (place = .openedTwice style.mark ∧ style.triple = false ∧
        body = closing style)) := by
  obtain ⟨rfl, areFlags, quote, isBody⟩ := isLiteral
  cases triple : style.triple with
  | true => exact ⟨.code, copy_triple areFlags quote isBody triple resumes noComment, .inl rfl⟩
  | false =>
      refine ⟨_, copy_single areFlags quote isBody triple resumes noComment, ?_⟩
      split
      next empty => exact .inr ⟨rfl, rfl, empty⟩
      next => exact .inl rfl

end Literals

/-- A lexeme that compaction reads as the scanner does: it is known, has no blanks in it unless it is a
string, reads as text if it is one, and has its line end behind it if it is a comment. -/
structure Sound (lexeme : Lexeme) (after : List Char) : Prop where
  starts : lexeme.Starts after
  known : lexeme.kind ≠ .stray
  visible : lexeme.kind.isBare = true →
    ∀ character ∈ lexeme.text, Text.isBlank character = false
  literal : lexeme.kind = .string → ∃ style flags body,
    Quoted.IsTextLiteral style flags body lexeme.text ∧
      (style.triple = false → body = Quoted.closing style → after.head? ≠ some style.mark) ∧
      ∀ right, Lexeme.AlikeAhead after right → Lexeme.Starts ⟨.string, lexeme.text⟩ right
  comment : lexeme.kind = .comment → ∀ character ∈ after.head?, character = '\n'

def AllSound : List Lexeme → List Char → Prop
  | [], _ => True
  | lexeme :: rest, after => Sound lexeme (Lexeme.texts rest ++ after) ∧ AllSound rest after

theorem written_space {progress : Progress} {state : State} {written : List Char}
    (stands : Written progress state written) :
    Written { progress with place := .code, spaced := true } ⟨state.behind, true⟩ written ∧
      Written { progress with place := .comment } ⟨state.behind, true⟩ written :=
  ⟨⟨rfl, stands.afterComma, stands.text, stands.behind⟩,
    ⟨rfl, stands.afterComma, stands.text, stands.behind⟩⟩

theorem written_run {place : Place} {run written : List Char} (noComment : place ≠ .comment)
    (nonempty : run ≠ []) (closed : ∀ last ∈ run.getLast?, isOpening last = false) :
    Written ⟨place, false, false, run.reverse ++ written⟩ ⟨.other, false⟩ (run.reverse ++ written) := by
  refine ⟨by rw [if_neg noComment], rfl, rfl, ?_⟩
  intro _
  refine ⟨by simp, fun opens => ?_⟩
  obtain ⟨last, isLast⟩ : ∃ last, run.getLast? = some last := by
    exact ⟨run.getLast nonempty, List.getLast?_eq_some_getLast nonempty⟩
  have head : (run.reverse ++ written).head? = some last := by
    rw [List.head?_append, List.head?_reverse, isLast]
    rfl
  have isOpening := opens last head
  rw [closed last isLast] at isOpening
  simp at isOpening

theorem foldl_run {progress : Progress} {run after : List Char} (nonempty : run ≠ [])
    (ordinary : ∀ character ∈ run, isOrdinary character = true)
    (resumes : Resumes progress (run ++ after)) (noComment : progress.place ≠ .comment) :
    run.foldl step progress =
      ⟨.code, false, false, run.reverse ++ (separator progress ++ progress.written)⟩ := by
  cases run with
  | nil => exact absurd rfl nonempty
  | cons character run =>
      rw [List.foldl_cons, step_resumed resumes noComment,
        code_step_ordinary _ (ordinary character (.head _)),
        foldl_ordinary fun c member => ordinary c (.tail _ member)]
      simp

theorem texts_one (lexemes : List Lexeme) (lexeme : Lexeme) :
    Lexeme.texts (lexemes ++ [lexeme]) = Lexeme.texts lexemes ++ lexeme.text := by
  rw [Lexeme.texts_append, Lexeme.texts, Lexeme.texts, List.append_nil]

/-- Whether compacting the text of a lexeme comes to the same as taking the lexeme. -/
def Tracks (progress : Progress) (state : State) (written : List Char) (lexeme : Lexeme)
    (after : List Char) : Prop :=
  Written (lexeme.text.foldl step progress) (advance state lexeme)
      ((Lexeme.texts (emitted state lexeme)).reverse ++ written) ∧
    Resumes (lexeme.text.foldl step progress) after

theorem step_ordinary {progress : Progress} {state : State} {written after : List Char}
    {lexeme : Lexeme} (stands : Written progress state written)
    (resumes : Resumes progress (lexeme.text ++ after)) (noComment : progress.place ≠ .comment)
    (isRole : role lexeme = .ordinary) (nonempty : lexeme.text ≠ [])
    (ordinary : ∀ character ∈ lexeme.text, isOrdinary character = true ∧ isOpening character = false) :
    Tracks progress state written lexeme after := by
  rw [Tracks, foldl_run nonempty (fun c member => (ordinary c member).1) resumes noComment,
    separator_written stands noComment]
  refine ⟨?_, resumes_code rfl after⟩
  simp only [advance, emitted, isRole, texts_one, List.reverse_append, List.append_assoc]
  exact written_run (by simp) nonempty fun last isLast =>
    (ordinary last (List.mem_of_getLast? isLast)).2

theorem ordinary_in_number {character : Char} (inside : Lexeme.inNumber character = true)
    (visible : Text.isBlank character = false) :
    isOrdinary character = true ∧ isOpening character = false := by
  have all : ∀ mark ∈ "'\"#)]\x7d,:([\x7b".toList, Lexeme.inNumber mark = false := by decide
  have none : ∀ mark ∈ "'\"#)]\x7d,:([\x7b".toList, character ≠ mark := by
    rintro mark member rfl
    rw [all character member] at inside
    simp at inside
  simp [isOrdinary, isMark, isOpening, visible, none '\'' (by decide), none '"' (by decide),
    none '#' (by decide), none ')' (by decide), none ']' (by decide), none '\x7d' (by decide),
    none ',' (by decide), none ':' (by decide), none '(' (by decide), none '[' (by decide),
    none '\x7b' (by decide)]

/-- The roles of symbols, and what they say of the text. -/
theorem ordinary_symbol {lexeme : Lexeme} (symbol : lexeme.kind = .symbol) {after : List Char}
    (starts : lexeme.Starts after) (isRole : role lexeme = .ordinary) :
    ∀ character ∈ lexeme.text, isOrdinary character = true ∧ isOpening character = false := by
  have long : ∀ text ∈ Lexeme.longSymbols, text ≠ [':', '='] → ∀ character ∈ text,
      isOrdinary character = true ∧ isOpening character = false := by decide +kernel
  have single : ∀ character ∈ "()[]\x7b\x7d,:;.=+-*/%@&|^~<>!".toList,
      character ∈ "()[]\x7b\x7d,:".toList ∨
        (isOrdinary character = true ∧ isOpening character = false) := by decide
  obtain ⟨kind, text⟩ := lexeme
  obtain rfl : kind = .symbol := symbol
  simp only [role] at isRole
  rcases Lexeme.starts_symbol rfl starts with isLong | ⟨character, isSymbol, rfl⟩
  · apply long text isLong
    rintro rfl
    simp at isRole
  · intro other member
    obtain rfl : other = character := by simpa using member
    rcases single other (List.contains_iff_mem.mp isSymbol) with special | ordinary
    · have cases : other = '(' ∨ other = ')' ∨ other = '[' ∨ other = ']' ∨ other = '\x7b' ∨
          other = '\x7d' ∨ other = ',' ∨ other = ':' := by simpa using special
      rcases cases with rfl | rfl | rfl | rfl | rfl | rfl | rfl | rfl <;> simp at isRole
    · exact ordinary

theorem blank_of_lexeme_blank {character : Char} (blank : Lexeme.isBlank character = true) :
    Text.isBlank character = true := by
  have cases : character = ' ' ∨ character = '\t' ∨ character = '\r' ∨ character = '\x0c' := by
    simpa [Lexeme.isBlank, or_assoc] using blank
  rcases cases with rfl | rfl | rfl | rfl <;> decide

theorem code_step_blank (progress : Progress) {character : Char}
    (blank : Text.isBlank character = true) :
    codeStep progress character = { progress with place := .code, spaced := true } := by
  rw [codeStep, if_pos blank]

theorem foldl_blank {run : List Char} (nonempty : run ≠ [])
    (blank : ∀ character ∈ run, Text.isBlank character = true) {spaced afterComma : Bool}
    {written : List Char} :
    run.foldl step ⟨.code, spaced, afterComma, written⟩ = ⟨.code, true, afterComma, written⟩ := by
  induction run generalizing spaced with
  | nil => exact absurd rfl nonempty
  | cons character run ih =>
      have one : step ⟨.code, spaced, afterComma, written⟩ character =
          ⟨.code, true, afterComma, written⟩ := code_step_blank _ (blank character (.head _))
      rw [List.foldl_cons, one]
      cases run with
      | nil => rfl
      | cons next run => exact ih (by simp) fun c member => blank c (.tail _ member)

theorem foldl_comment {body : List Char} (oneLine : '\n' ∉ body) (progress : Progress)
    (comment : progress.place = .comment) : body.foldl step progress = progress := by
  induction body with
  | nil => rfl
  | cons character body ih =>
      have different : character ≠ '\n' := fun same => oneLine (same ▸ .head _)
      have one : step progress character = progress := by
        simp only [step, comment]
        rw [if_neg different]
      rw [List.foldl_cons, one, ih fun member => oneLine (.tail _ member)]

theorem eq_newline_of_sound {lexeme : Lexeme} {after : List Char} (sound : Sound lexeme after)
    (head : ∀ character ∈ (lexeme.text ++ after).head?, character = '\n') : lexeme = ⟨.newline, ['\n']⟩ := by
  obtain ⟨character, rest, text, found⟩ := sound.starts
  obtain rfl : character = '\n' := head character (by rw [text]; rfl)
  by_cases isToken : lexeme.kind.isToken = true
  · exact absurd rfl (Lexeme.visible_of_token found isToken).1
  · have isGap : lexeme.kind.isGap = true := by
      have known := sound.known
      cases kind : lexeme.kind <;> simp_all [LexemeKind.isToken, LexemeKind.isGap]
    cases Lexeme.gap_form sound.starts isGap with
    | newline => rfl
    | blank isBlank =>
        obtain rfl := (List.cons.inj text).1
        simp [Lexeme.isBlank] at isBlank
    | unseen isUnseen =>
        obtain rfl := (List.cons.inj text).1
        simp [Lexeme.isUnseen] at isUnseen
    | comment => simp at text
    | joinedLine => simp at text
    | joinedReturn => simp at text

theorem step_after_comment {progress : Progress} {state : State} {written after : List Char}
    {lexeme : Lexeme} (stands : Written progress state written)
    (resumes : Resumes progress (lexeme.text ++ after)) (sound : Sound lexeme after)
    (comment : progress.place = .comment) : Tracks progress state written lexeme after := by
  unfold Resumes at resumes
  rw [comment] at resumes
  obtain rfl := eq_newline_of_sound sound resumes
  constructor
  · simp only [List.foldl_cons, List.foldl_nil, step, comment, if_true]
    exact (written_space stands).1
  · apply resumes_code
    simp [step, comment]

section

variable {progress : Progress} {state : State} {written after : List Char} {lexeme : Lexeme}

theorem step_blank_gap (stands : Written progress state written)
    (resumes : Resumes progress (lexeme.text ++ after)) (noComment : progress.place ≠ .comment)
    {character : Char} (blank : Text.isBlank character = true) (text : lexeme.text = [character])
    (isRole : role lexeme = .space) : Tracks progress state written lexeme after := by
  rw [text] at resumes
  rw [Tracks, text, List.foldl_cons, List.foldl_nil, step_resumed resumes noComment,
    code_step_blank progress blank, advance, emitted, isRole]
  exact ⟨(written_space stands).1, resumes_code rfl after⟩

theorem step_joined (stands : Written progress state written)
    (resumes : Resumes progress (lexeme.text ++ after)) (noComment : progress.place ≠ .comment)
    {rest : List Char} (text : lexeme.text = '\\' :: rest) (isRole : role lexeme = .joined)
    (nonempty : rest ≠ []) (blank : ∀ character ∈ rest, Text.isBlank character = true) :
    Tracks progress state written lexeme after := by
  rw [text, List.cons_append] at resumes
  rw [Tracks, text, List.foldl_cons, step_resumed resumes noComment,
    code_step_ordinary progress (by decide), separator_written stands noComment,
    foldl_blank nonempty blank]
  refine ⟨?_, resumes_code rfl after⟩
  simp only [advance, emitted, isRole, texts_one, List.reverse_append, List.append_assoc]
  exact (written_space (@written_run .code ['\\'] _ (by simp) (by simp) fun | _, rfl => rfl)).1

/-- What stands between tokens becomes a space, apart from a character that is kept and the backslash
of a joined line. -/
theorem step_gap (stands : Written progress state written)
    (resumes : Resumes progress (lexeme.text ++ after)) (sound : Sound lexeme after)
    (noComment : progress.place ≠ .comment) (isGap : lexeme.kind.isGap = true) :
    Tracks progress state written lexeme after := by
  cases Lexeme.gap_form sound.starts isGap with
  | newline => exact step_blank_gap stands resumes noComment (by decide) rfl rfl
  | blank isBlank => exact step_blank_gap stands resumes noComment (blank_of_lexeme_blank isBlank) rfl rfl
  | @comment _ body oneLine ends =>
      have commented : codeStep progress '#' = { progress with place := .comment } := rfl
      rw [List.cons_append] at resumes
      rw [Tracks, List.foldl_cons, step_resumed resumes noComment, commented, foldl_comment oneLine _ rfl]
      refine ⟨(written_space stands).2, ?_⟩
      exact sound.comment rfl
  | joinedLine => exact step_joined stands resumes noComment rfl rfl (by simp) (by decide)
  | joinedReturn => exact step_joined stands resumes noComment rfl rfl (by simp) (by decide)
  | @unseen _ character isUnseen =>
      by_cases tab : character = '\x0b'
      · obtain rfl := tab
        exact step_blank_gap stands resumes noComment (by decide) rfl rfl
      · apply step_ordinary stands resumes noComment
        · simp [role, tab]
        · simp
        · have cases : character = '\x0b' ∨ character = '\ufeff' ∨ character = '\u200b' ∨
              character = '\u2060' := by simpa [Lexeme.isUnseen, or_assoc] using isUnseen
          intro other member
          obtain rfl : other = character := by simpa using member
          rcases cases with rfl | rfl | rfl | rfl
          · exact absurd rfl tab
          all_goals decide

end

theorem symbol_cases {lexeme : Lexeme} (symbol : lexeme.kind = .symbol) :
    (role lexeme = .closing ∧ (lexeme.text = [']'] ∨ lexeme.text = ['\x7d'])) ∨
      (role lexeme = .round ∧ lexeme.text = [')']) ∨
      (role lexeme = .comma ∧ lexeme.text = [',']) ∨
      (role lexeme = .colon ∧ (lexeme.text = [':'] ∨ lexeme.text = [':', '='])) ∨
      (role lexeme = .opening ∧
        (lexeme.text = ['('] ∨ lexeme.text = ['['] ∨ lexeme.text = ['\x7b'])) ∨
      role lexeme = .ordinary := by
  unfold role
  simp only [symbol]
  split_ifs <;> simp_all

theorem written_other {character : Char} (closed : isOpening character = false)
    (written : List Char) :
    Written ⟨.code, false, false, character :: written⟩ ⟨.other, false⟩ (character :: written) :=
  ⟨rfl, rfl, rfl, fun _ => by simp [closed]⟩

section

variable {progress : Progress} {state : State} {written after rest : List Char} {lexeme : Lexeme}
  {character : Char}

theorem foldl_first (resumes : Resumes progress (lexeme.text ++ after)) (noComment : progress.place ≠ .comment)
    (text : lexeme.text = character :: rest) :
    lexeme.text.foldl step progress = rest.foldl step (codeStep progress character) := by
  rw [text, List.cons_append] at resumes
  rw [text, List.foldl_cons, step_resumed resumes noComment]

theorem step_closing (stands : Written progress state written)
    (resumes : Resumes progress (lexeme.text ++ after)) (noComment : progress.place ≠ .comment)
    (isRole : role lexeme = .closing) (closes : character = ']' ∨ character = '\x7d')
    (text : lexeme.text = [character]) : Tracks progress state written lexeme after := by
  have kept : (if progress.afterComma then progress.written.drop 1 else progress.written) =
      written := by
    rw [stands.text, stands.afterComma, pending]
    cases state.behind <;> simp [Lexeme.texts, commaLexeme]
  have closed : codeStep progress character = ⟨.code, false, false, character :: written⟩ := by
    rw [← kept]
    rcases closes with rfl | rfl <;> rfl
  rw [Tracks, foldl_first resumes noComment text, List.foldl_nil, closed]
  refine ⟨?_, resumes_code rfl after⟩
  simp only [advance, emitted, isRole, Lexeme.texts, text]
  exact written_other (by rcases closes with rfl | rfl <;> rfl) written

theorem step_behind (stands : Written progress state written)
    (resumes : Resumes progress (lexeme.text ++ after)) (noComment : progress.place ≠ .comment)
    (isRole : role lexeme = .round ∨ role lexeme = .colon)
    (read : codeStep progress character = ⟨.code, false, false, character :: progress.written⟩)
    (ordinary : ∀ other ∈ rest, isOrdinary other = true)
    (closed : ∀ last ∈ (character :: rest).getLast?, isOpening last = false)
    (text : lexeme.text = character :: rest) : Tracks progress state written lexeme after := by
  rw [Tracks, foldl_first resumes noComment text, read, stands.text, foldl_ordinary ordinary]
  refine ⟨?_, resumes_code rfl after⟩
  have emits : emitted state lexeme = pending state ++ [lexeme] := by
    rcases isRole with isRole | isRole <;> simp [emitted, isRole]
  have next : advance state lexeme = ⟨.other, false⟩ := by
    rcases isRole with isRole | isRole <;> simp [advance, isRole]
  have run := @written_run .code (character :: rest)
    ((Lexeme.texts (pending state)).reverse ++ written) (by simp) (by simp) closed
  rw [emits, next, texts_one, text]
  simpa using run

theorem step_held_comma (stands : Written progress state written)
    (resumes : Resumes progress (lexeme.text ++ after)) (noComment : progress.place ≠ .comment)
    (isRole : role lexeme = .comma) (text : lexeme.text = [',']) :
    Tracks progress state written lexeme after := by
  have comma : codeStep progress ',' = ⟨.code, false, true, ',' :: progress.written⟩ := rfl
  rw [Tracks, foldl_first resumes noComment text, List.foldl_nil, comma, stands.text]
  refine ⟨?_, resumes_code rfl after⟩
  simp only [advance, emitted, isRole]
  exact ⟨rfl, rfl, rfl, by simp⟩

theorem step_opening (stands : Written progress state written)
    (resumes : Resumes progress (lexeme.text ++ after)) (noComment : progress.place ≠ .comment)
    (isRole : role lexeme = .opening) (ordinary : isOrdinary character = true)
    (opens : isOpening character = true) (text : lexeme.text = [character]) :
    Tracks progress state written lexeme after := by
  rw [Tracks, foldl_first resumes noComment text, List.foldl_nil, code_step_ordinary progress ordinary,
    separator_written stands noComment]
  refine ⟨?_, resumes_code rfl after⟩
  simp only [advance, emitted, isRole, texts_one, text, List.reverse_append]
  exact ⟨rfl, rfl, rfl, fun _ => by simp [opens]⟩

/-- A bracket, a comma or a colon is written at once, a comma to be held back. -/
theorem step_symbol (stands : Written progress state written)
    (resumes : Resumes progress (lexeme.text ++ after)) (sound : Sound lexeme after)
    (noComment : progress.place ≠ .comment) (symbol : lexeme.kind = .symbol) :
    Tracks progress state written lexeme after := by
  rcases symbol_cases symbol with ⟨isRole, texts⟩ | ⟨isRole, text⟩ | ⟨isRole, text⟩ |
    ⟨isRole, texts⟩ | ⟨isRole, texts⟩ | isRole
  · rcases texts with text | text
    · exact step_closing stands resumes noComment isRole (.inl rfl) text
    · exact step_closing stands resumes noComment isRole (.inr rfl) text
  · exact step_behind stands resumes noComment (.inl isRole) rfl (by simp) (fun | _, rfl => rfl) text
  · exact step_held_comma stands resumes noComment isRole text
  · rcases texts with text | text
    · exact step_behind stands resumes noComment (.inr isRole) rfl (by simp) (fun | _, rfl => rfl) text
    · exact step_behind stands resumes noComment (.inr isRole) rfl (by decide) (fun | _, rfl => rfl) text
  · rcases texts with text | text | text <;>
      exact step_opening stands resumes noComment isRole (by decide) (by decide) text
  · obtain ⟨character, rest, text, -⟩ := sound.starts
    exact step_ordinary stands resumes noComment isRole (by simp [text])
      (ordinary_symbol symbol sound.starts isRole)

theorem step_string (stands : Written progress state written)
    (resumes : Resumes progress (lexeme.text ++ after)) (sound : Sound lexeme after)
    (noComment : progress.place ≠ .comment) (string : lexeme.kind = .string) :
    Tracks progress state written lexeme after := by
  obtain ⟨style, flags, body, isLiteral, empty, -⟩ := sound.literal string
  obtain ⟨place, copied, places⟩ := copy_literal isLiteral resumes noComment
  have isRole : role lexeme = .ordinary := by rw [role, string]
  rw [Tracks, copied, separator_written stands noComment]
  constructor
  · simp only [advance, emitted, isRole, texts_one, List.reverse_append, List.append_assoc]
    have noCommentAfter : place ≠ .comment := by
      rcases places with rfl | ⟨rfl, -⟩ <;> simp
    obtain ⟨text, areFlags, quote, isBody⟩ := isLiteral
    have last : lexeme.text.getLast? = some style.mark := by
      simp [text, List.getLast?_append, Quoted.last_of_body isBody]
    have closed : isOpening style.mark = false := by
      rcases quote with same | same <;> rw [same] <;> rfl
    refine written_run noCommentAfter ?_ ?_
    · intro none
      simp [none] at last
    · intro character isLast
      obtain rfl : style.mark = character := by simpa [last] using isLast
      exact closed
  · unfold Resumes
    rcases places with rfl | ⟨rfl, single, isEmpty⟩
    · trivial
    · exact empty single isEmpty

/-- Compacting the text of a lexeme comes to the same as taking the lexeme. -/
theorem step_lexeme (stands : Written progress state written)
    (resumes : Resumes progress (lexeme.text ++ after)) (sound : Sound lexeme after) :
    Tracks progress state written lexeme after := by
  by_cases noComment : progress.place = .comment
  · exact step_after_comment stands resumes sound noComment
  have number (isBare : lexeme.kind.isBare = true) (noSymbol : lexeme.kind ≠ .symbol)
      (isRole : role lexeme = .ordinary) :
      Tracks progress state written lexeme after := by
    have inside := Lexeme.starts_in_number isBare noSymbol sound.starts
    obtain ⟨character, rest, text, -⟩ := sound.starts
    exact step_ordinary stands resumes noComment isRole (by simp [text]) fun c member =>
      ordinary_in_number (inside c member) (sound.visible isBare c member)
  cases kind : lexeme.kind with
  | blank | newline | comment | joinedLine | unseen =>
      exact step_gap stands resumes sound noComment (by rw [kind]; rfl)
  | word | integer | float =>
      exact number (by rw [kind]; rfl) (by rw [kind]; simp) (by rw [role, kind])
  | string => exact step_string stands resumes sound noComment kind
  | symbol => exact step_symbol stands resumes sound noComment kind
  | stray => exact absurd kind sound.known

end

/-- Compacting the text of lexemes comes to the same as taking them one after another. -/
theorem written_tidy {lexemes : List Lexeme} {progress : Progress} {state : State}
    {written after : List Char} (stands : Written progress state written)
    (resumes : Resumes progress (Lexeme.texts lexemes ++ after)) (sound : AllSound lexemes after) :
    Written ((Lexeme.texts lexemes).foldl step progress) (arrive state lexemes)
        ((Lexeme.texts (tidy state lexemes)).reverse ++ written) ∧
      Resumes ((Lexeme.texts lexemes).foldl step progress) after := by
  induction lexemes generalizing progress state written with
  | nil => exact ⟨stands, resumes⟩
  | cons lexeme rest ih =>
      rw [Lexeme.texts, List.append_assoc] at resumes
      obtain ⟨first, resumesRest⟩ := step_lexeme stands resumes sound.1
      obtain ⟨later, resumesAfter⟩ := ih first resumesRest sound.2
      rw [Lexeme.texts, List.foldl_append]
      refine ⟨?_, resumesAfter⟩
      rw [tidy, Lexeme.texts_append, List.reverse_append, List.append_assoc]
      exact later

end TaskCab.Source.Compact
