import TaskCab.Proofs.Source.CompactTwice
import TaskCab.Proofs.Source.ExpressionLexemes
import TaskCab.Proofs.Source.TidiedTrees

/-!
# Literals that stand for no text

Compaction does not follow the quotes of a literal of bytes, with replacement fields or between
backquotes as the scanner does. Whatever it makes of the rest of the expression, the opening of the
literal stays where it is, and the compact text is no plain data.
-/

namespace TaskCab.Source.Compact

open Lexeme

/-- Whether a text has been written for good: a comma that may still be dropped comes after it. -/
def Keeps (base : List Char) (progress : Progress) : Prop :=
  ∃ more, progress.written = more ++ base ∧ (progress.afterComma = true → more ≠ [])

variable {base : List Char} {progress next : Progress} {character : Char}

theorem keeps_copy (place : Place) (spaced : Bool) {written : List Char}
    (keeps : ∃ more, written = more ++ base) :
    Keeps base ⟨place, spaced, false, character :: written⟩ := by
  obtain ⟨more, rfl⟩ := keeps
  exact ⟨character :: more, rfl, by simp⟩

theorem keeps_reads (keeps : Keeps base progress) (reads : Reads progress character next) :
    Keeps base next := by
  obtain ⟨more, written, dropped⟩ := keeps
  cases reads with
  | blank | comment => exact ⟨more, written, dropped⟩
  | round | colon => exact keeps_copy _ _ ⟨more, written⟩
  | comma => exact ⟨',' :: more, by rw [written]; rfl, by simp⟩
  | plain => exact keeps_copy _ _ ⟨separator progress ++ more, by rw [written, List.append_assoc]⟩
  | closing =>
      refine keeps_copy _ _ ?_
      unfold settled
      split
      next comma =>
        cases more with
        | nil => exact absurd rfl (dropped comma)
        | cons first more => exact ⟨more, by rw [written]; rfl⟩
      next => exact ⟨more, written⟩

theorem keeps_step (keeps : Keeps base progress) (character : Char) :
    Keeps base (step progress character) := by
  have code := keeps_reads keeps (reads_code progress character)
  obtain ⟨more, written, dropped⟩ := keeps
  have copied (place : Place) : Keeps base ⟨place, false, false, character :: progress.written⟩ :=
    keeps_copy _ _ ⟨more, written⟩
  unfold step
  dsimp only
  split
  · exact code
  · split
    · exact ⟨more, written, dropped⟩
    · exact ⟨more, written, dropped⟩
  · split
    · exact copied _
    · exact copied _
  · split
    · exact copied _
    · exact code
  · exact copied _
  · exact copied _

theorem keeps_foldl (keeps : Keeps base progress) (characters : List Char) :
    Keeps base (characters.foldl step progress) := by
  induction characters generalizing progress with
  | nil => exact keeps
  | cons character rest ih => exact ih (keeps_step keeps character)

theorem tidy_first {first : Lexeme} (isToken : first.kind.isToken = true) (noComma : first ≠ commaLexeme)
    (rest : List Lexeme) : tidy initial (first :: rest) = first :: tidy (advance initial first) rest := by
  have alone : emitted initial first = [first] := by
    have emits := emits initial first
    generalize emitted initial first = front, advance initial first = next at emits ⊢
    cases emits with
    | space _ isGap => simp [not_token_of_gap isGap] at isToken
    | joined _ isJoined => simp [isJoined, LexemeKind.isToken] at isToken
    | comma _ isComma => exact absurd isComma noComma
    | closing | behind | opening | ordinary => rfl
  rw [tidy, alone, List.singleton_append]

section

variable {front : List Lexeme} {flags rest after : List Char} {mark : Char}

/-- Up to the first mark of a literal of another sort, the compact text is known. -/
theorem text_up_to_other (areFlags : ∀ flag ∈ flags, Quoted.isFlag flag = true)
    (quotes : Quoted.isMark mark = true) (sound : AllSound front (flags ++ mark :: after))
    (head : ∀ first ∈ (texts front ++ flags).head?, Text.isBlank first = false) :
    ∃ more, text (texts front ++ (flags ++ mark :: rest)) =
      texts (tidy initial front) ++ (texts (gap (arrive initial front)) ++ (flags ++ mark :: more)) := by
  obtain ⟨behind, trimmed⟩ := Text.trim_of_start (Quoted.not_blank_of_mark quotes) head rest
  obtain ⟨stands, resumes⟩ := written_tidy written_start (resumes_code rfl _) sound
  have noComment : ((texts front).foldl step start).place ≠ .comment := by
    intro isComment
    unfold Resumes at resumes
    rw [isComment] at resumes
    cases flags with
    | nil =>
        obtain rfl := resumes mark rfl
        simp [Quoted.isMark] at quotes
    | cons flag flags =>
        obtain rfl := resumes flag rfl
        have isFlag := areFlags _ (.head _)
        simp [Quoted.isFlag] at isFlag
  have opened := copy_opening areFlags quotes resumes noComment
  rw [separator_written stands noComment] at opened
  have keeps : Keeps ((flags ++ [mark]).reverse ++ ((texts (gap (arrive initial front))).reverse ++
      ((texts (tidy initial front)).reverse ++ [])))
      ((texts front ++ flags ++ [mark]).foldl step start) := by
    rw [List.append_assoc (texts front), List.foldl_append, opened]
    exact ⟨[], rfl, by simp⟩
  obtain ⟨more, written, -⟩ := keeps_foldl keeps behind
  refine ⟨more.reverse, ?_⟩
  rw [text, ← List.append_assoc, trimmed, ← List.singleton_append, ← List.append_assoc, List.foldl_append,
    written]
  simp

theorem chain_up_to_other (quotes : Quoted.isMark mark = true)
    (sound : AllSound front (flags ++ mark :: after)) (more : List Char) :
    Chain (tidy initial front ++ gap (arrive initial front)) (flags ++ mark :: more) := by
  have stops (rest : List Char) : Text.Stops goesOn (mark :: rest) := by
    have cases : mark = '\'' ∨ mark = '"' ∨ mark = '`' := by
      simpa [Quoted.isMark, or_assoc] using quotes
    rcases cases with rfl | rfl | rfl <;> exact Text.stops_cons.mpr (by decide)
  have ends : Ending (flags ++ mark :: after)
      fun state => texts (gap state) ++ (flags ++ mark :: more) := by
    refine ⟨?_, flags, mark :: after, mark :: more, rfl, rfl, stops _, stops _, fun _ _ => Iff.rfl⟩
    intro state notOpening due
    exact cut_of_gap notOpening due _
  exact chain_append.mpr ⟨chain_tidy ends sound initial, chain_gap _ _⟩

theorem visible_first {front : List Lexeme} {after : List Char} (sound : AllSound front after)
    (starts : ∀ first ∈ front.head?, first.kind.isToken = true ∧ first ≠ commaLexeme)
    {text : List Char} (visible : ∀ character ∈ text.head?, IsVisible character) :
    ∀ character ∈ (texts (tidy initial front) ++ (texts (gap (arrive initial front)) ++ text)).head?,
      IsVisible character := by
  cases front with
  | nil => exact visible
  | cons first rest =>
      obtain ⟨isToken, noComma⟩ := starts first rfl
      rw [tidy_first isToken noComma]
      exact visible_texts sound.1.starts isToken _ _

end

end TaskCab.Source.Compact

namespace TaskCab.Source.Lexeme

theorem scan_of_visible {text : List Char} (visible : ∀ character ∈ text.head?, IsVisible character) :
    scan text = scanFrom 0 text := by
  apply scan_of_no_mark
  intro isHead
  have seen := (visible '\ufeff' isHead).2.2.2.2
  simp [isUnseen] at seen

end TaskCab.Source.Lexeme

namespace TaskCab.Source.Line

open Progress

theorem tokens_of_reversed {tokens : List Token} {line : Line} (found : ofReversed tokens = [line]) :
    line.tokens = tokens.reverse := by
  unfold ofReversed at found
  cases back : tokens.reverse with
  | nil => simp [back] at found
  | cons token rest =>
      rw [back] at found
      obtain rfl := (List.cons.inj found).1
      rfl

/-- A lexeme that starts nothing, or a literal that stands for no text, leaves a token without a
value. -/
theorem add_odd (progress : Progress) {lexeme : Lexeme}
    (odd : lexeme.kind = .stray ∨ lexeme.kind = .string ∧ Quoted.IsOther lexeme.text) :
    ∃ token ∈ (progress.addLexeme lexeme).tokens, Literal.Part.unread (.token token) = true := by
  obtain ⟨kind, text⟩ := lexeme
  rcases odd with stray | ⟨string, other⟩
  · obtain rfl : kind = .stray := stray
    exact ⟨_, .head _, by simp [Literal.Part.unread]⟩
  · obtain rfl : kind = .string := string
    have noText : Quoted.text? text = none := Quoted.text_of_other other
    unfold addLexeme
    dsimp only
    split
    · exact ⟨_, .head _, by simp [Literal.Part.unread, Token.stray]⟩
    · exact ⟨_, .head _, by simp [Literal.Part.unread, noText]⟩

end TaskCab.Source.Line

namespace TaskCab.Source.Literal

/-- A text that makes one line with a token that stands for no value is no plain data. -/
theorem read_none {text : List Char}
    (odd : ∀ line, Line.ofText (Text.trim text) = [line] →
      ∃ token ∈ line.tokens, Part.unread (.token token) = true) : read? text = none := by
  unfold read?
  split
  next line found =>
    obtain ⟨token, member, isUnread⟩ := odd line found
    cases grouped : Tree.ofTokens? line.tokens with
    | none => rfl
    | some trees =>
        obtain ⟨balanced, same⟩ := Tree.of_tokens_sound grouped
        exact line_value_unread (parts_unread balanced ⟨token, same ▸ member, isUnread⟩)
  next => rfl

open TaskCab.Source.Compact

/-- The compact text of an expression with a literal of another sort is no plain data. -/
theorem read_up_to_other {front : List Lexeme} {flags rest after : List Char} {mark : Char}
    (areFlags : ∀ flag ∈ flags, Quoted.isFlag flag = true) (quotes : Quoted.isMark mark = true)
    (odd : mark = '`' ∨ ∃ flag ∈ flags, flag.toLower ≠ 'r' ∧ flag.toLower ≠ 'u')
    (sound : AllSound front (flags ++ mark :: after))
    (head : ∀ first ∈ (Lexeme.texts front ++ flags).head?, Text.isBlank first = false)
    (starts : ∀ first ∈ front.head?, first.kind.isToken = true ∧ first ≠ commaLexeme) :
    read? (Compact.text (Lexeme.texts front ++ (flags ++ mark :: rest))) = none := by
  obtain ⟨more, written⟩ := text_up_to_other areFlags quotes sound head
  have chain := chain_up_to_other quotes sound more
  refine read_none fun line found => ?_
  rw [trim_text, written] at found
  cases opening : flags ++ mark :: more with
  | nil => simp at opening
  | cons character others =>
      have visible : Lexeme.IsVisible character := by
        cases flags with
        | nil =>
            obtain rfl := (List.cons.inj opening).1
            exact Quoted.visible_of_mark quotes
        | cons flag flags =>
            obtain rfl := (List.cons.inj opening).1
            exact Quoted.visible_of_flag (areFlags _ (.head _))
      have odd := Quoted.first_of_other areFlags quotes odd opening.symm
      rw [opening] at found chain
      have scanned := Lexeme.scan_of_visible (visible_first sound starts
        (fun c isHead => by
          obtain rfl : character = c := Option.some.inj isHead
          exact visible : ∀ c ∈ (character :: others).head?, Lexeme.IsVisible c))
      rw [← List.append_assoc, ← Lexeme.texts_append] at scanned found
      rw [Lexeme.scan_from_chain chain, Lexeme.scan_from_zero] at scanned
      have areWritten : ∀ lexeme ∈ tidy initial front ++ gap (arrive initial front),
          IsWritten lexeme := fun lexeme member =>
        (List.mem_append.mp member).elim (written_of_tidy initial lexeme) (written_of_gap _ lexeme)
      obtain ⟨next, tokens, takes⟩ := @Line.takes_up_written _ areWritten .start rfl rfl
      have isOdd : (Lexeme.first character others).1 = .stray ∨
          (Lexeme.first character others).1 = .string ∧
            Quoted.IsOther ((character :: others).take (Lexeme.first character others).2) := by
        rcases odd with stray | ⟨length, string, other⟩
        · exact .inl (by rw [stray])
        · exact .inr ⟨by rw [string], by rw [string]; exact other⟩
      obtain ⟨token, member, isUnread⟩ := @Line.add_odd next ⟨_, _⟩ isOdd
      refine ⟨token, ?_, isUnread⟩
      have noNewline : (Lexeme.first character others).1 ≠ .newline := by
        rcases isOdd with kind | ⟨kind, -⟩ <;> simp [kind]
      rw [Line.ofText, scanned, takes.gathered, Line.gather, if_neg (by simp [noNewline])] at found
      obtain ⟨other, inLines, within⟩ := Line.mem_of_gather _ member
      rw [found] at inLines
      rwa [List.mem_singleton.mp inLines] at within

end TaskCab.Source.Literal
