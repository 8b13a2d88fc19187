import TaskCab.Proofs.Source.CompactTwice
import TaskCab.Proofs.Source.ReturnedLiterals

/-!
# Texts of expressions with other line ends

Compaction keeps the returns that are put into an expression, and drops those of the line ends that it
drops. A literal that stands for a text stands for the text with returns in front of some line feeds,
unless a backslash carries a line feed along.
-/

namespace TaskCab.Source.Compact

open TaskCab.Text

def writtenReturns (written : List Char) : List Char := written.flatMap fun c => (withReturn c).reverse

theorem written_returns_reverse (written : List Char) :
    (writtenReturns written).reverse = withReturns written.reverse := by
  rw [writtenReturns, withReturns, List.reverse_flatMap]
  exact congrArg (List.flatMap · _) (funext fun c => List.reverse_reverse _)

def Progress.returned (progress : Progress) : Progress :=
  { progress with written := writtenReturns progress.written }

theorem written_returns_cons {character : Char} (noFeed : character ≠ '\n') (written : List Char) :
    writtenReturns (character :: written) = character :: writtenReturns written := by
  rw [writtenReturns, List.flatMap_cons, withReturn, if_neg noFeed]
  rfl

theorem written_returns_head (written : List Char) :
    (writtenReturns written).head? = written.head? := by
  cases written with
  | nil => rfl
  | cons last rest =>
      by_cases feed : last = '\n'
      · rw [feed]
        rfl
      · rw [written_returns_cons feed]
        rfl

theorem separator_returned (progress : Progress) : separator progress.returned = separator progress := by
  obtain ⟨place, spaced, afterComma, written⟩ := progress
  have head := written_returns_head written
  unfold separator Progress.returned
  dsimp only
  cases written with
  | nil => rfl
  | cons last rest =>
      cases same : writtenReturns (last :: rest) with
      | nil => simp [same] at head
      | cons other behind =>
          obtain rfl : other = last := by simpa [same] using head
          rfl

variable {progress : Progress} {last : Option Char} {character : Char}

theorem code_step_returned (orderly : Orderly progress last) (code : progress.place.copies = false)
    (noFeed : character ≠ '\n') :
    codeStep progress.returned character = (codeStep progress character).returned := by
  have separated := separator_returned progress
  have comma := orderly.comma code
  have spread : writtenReturns (separator progress ++ progress.written) =
      separator progress ++ writtenReturns progress.written := by
    rcases separator_cases orderly code with none | ⟨one, -⟩
    · rw [none]
      rfl
    · rw [one]
      exact written_returns_cons (by decide) _
  obtain ⟨place, spaced, afterComma, written⟩ := progress
  unfold codeStep
  rw [separated]
  split
  · rfl
  split
  · rfl
  split
  · exact congrArg (Progress.mk _ _ _) (written_returns_cons noFeed written).symm
  split
  · cases afterComma with
    | false => exact congrArg (Progress.mk _ _ _) (written_returns_cons noFeed written).symm
    | true =>
        cases written with
        | nil => simp at comma
        | cons first rest =>
            obtain rfl : first = ',' := by simpa using comma
            exact congrArg (Progress.mk _ _ _) (written_returns_cons noFeed rest).symm
  split
  · exact congrArg (Progress.mk _ _ _) (written_returns_cons noFeed written).symm
  · apply congrArg (Progress.mk _ _ _)
    rw [written_returns_cons noFeed, spread]
    rfl

theorem step_returned (orderly : Orderly progress last) (noFeed : character ≠ '\n') :
    step progress.returned character = (step progress character).returned := by
  have read := @code_step_returned progress last character orderly
  obtain ⟨place, spaced, afterComma, written⟩ := progress
  have copied (next : Place) : (⟨next, false, false, character :: writtenReturns written⟩ : Progress) =
      Progress.returned ⟨next, false, false, character :: written⟩ :=
    congrArg (Progress.mk _ _ _) (written_returns_cons noFeed written).symm
  cases place with
  | code => exact read rfl noFeed
  | comment => simp [step, Progress.returned, noFeed]
  | opened mark =>
      unfold step
      dsimp only [Progress.returned]
      split <;> exact copied _
  | openedTwice mark =>
      have coded := read rfl noFeed
      unfold step
      dsimp only [Progress.returned] at coded ⊢
      split
      · exact copied _
      · exact coded
  | literal mark triple run => exact copied _
  | escape mark triple => exact copied _

/-- A return and the line feed behind it do what the line feed does. -/
theorem step_at_feed (orderly : Orderly progress last) :
    step (step progress.returned '\r') '\n' = (step progress '\n').returned := by
  have marked := orderly.marked
  obtain ⟨place, spaced, afterComma, written⟩ := progress
  cases place with
  | code => rfl
  | comment => rfl
  | opened mark =>
      have cases : mark = '\'' ∨ mark = '"' := by simpa [Place.IsMarked, isMark] using marked
      rcases cases with rfl | rfl <;> rfl
  | openedTwice mark =>
      have cases : mark = '\'' ∨ mark = '"' := by simpa [Place.IsMarked, isMark] using marked
      rcases cases with rfl | rfl <;> rfl
  | literal mark triple run =>
      have cases : mark = '\'' ∨ mark = '"' := by simpa [Place.IsMarked, isMark] using marked
      rcases cases with rfl | rfl <;> rfl
  | escape mark triple =>
      have cases : mark = '\'' ∨ mark = '"' := by simpa [Place.IsMarked, isMark] using marked
      rcases cases with rfl | rfl <;> rfl

theorem foldl_returned (orderly : Orderly progress last) (text : List Char) :
    (withReturns text).foldl step progress.returned = (text.foldl step progress).returned := by
  induction text generalizing progress last with
  | nil => rfl
  | cons character rest ih =>
      have next := orderly_step orderly character
      by_cases feed : character = '\n'
      · obtain rfl := feed
        rw [with_returns_feed, List.foldl_cons, List.foldl_cons, List.foldl_cons, step_at_feed orderly,
          ih next]
      · rw [with_returns_cons feed, List.foldl_cons, List.foldl_cons, step_returned orderly feed, ih next]

/-- The compact text of an expression with the returns put in. -/
theorem text_returned (expression : List Char) :
    text (withReturns expression) = withReturns (text expression) := by
  rw [text, text, trim_with_returns, ← written_returns_reverse]
  exact congrArg (fun progress => progress.written.reverse) (foldl_returned orderly_start (trim expression))

end TaskCab.Source.Compact

namespace TaskCab.Source.Quoted

open TaskCab.Text

variable {rest text : List Char}

/-! ## Escapes -/

theorem hex_meaning_length (letter : Char) (width : Nat) (rest : List Char) :
    (hexMeaning letter width rest).2 = ((rest.take width).takeWhile isHexDigit).length + 1 := by
  unfold hexMeaning
  dsimp only
  split
  next full =>
    split
    · rw [full]
    · rfl
  next => rfl

theorem hex_meaning_returned (letter : Char) (width : Nat) (rest : List Char) :
    hexMeaning letter width (withReturns rest) = hexMeaning letter width rest := by
  unfold hexMeaning
  rw [take_run_with_returns (by decide) (by decide)]

theorem octal_meaning_returned (text : List Char) :
    octalMeaning (withReturns text) = octalMeaning text := by
  unfold octalMeaning
  rw [take_run_with_returns (by decide) (by decide)]

theorem escape_meaning_returned (noFeed : rest.head? ≠ some '\n') :
    escapeMeaning (withReturns rest) = escapeMeaning rest ∧
      grown rest (escapeMeaning rest).2 = (escapeMeaning rest).2 := by
  cases rest with
  | nil => exact ⟨rfl, rfl⟩
  | cons letter rest =>
      have notFeed : letter ≠ '\n' := fun same => noFeed (by rw [same]; rfl)
      have octal := octal_meaning_returned (letter :: rest)
      rw [with_returns_cons notFeed] at octal ⊢
      have one : grown (letter :: rest) 1 = 1 := grown_cons notFeed rest 0
      have hex (width : Nat) : grown (letter :: rest) (hexMeaning letter width rest).2 =
          (hexMeaning letter width rest).2 := by
        rw [hex_meaning_length, grown_cons notFeed, grown_take_run (by decide)]
      have octalGrown : grown (letter :: rest) (octalMeaning (letter :: rest)).2 =
          (octalMeaning (letter :: rest)).2 := grown_take_run (by decide) 3 (letter :: rest)
      constructor
      · unfold escapeMeaning
        dsimp only
        rw [octal, hex_meaning_returned, hex_meaning_returned, hex_meaning_returned]
      · have either {holds : Prop} [Decidable holds] {left right : List Char × Nat}
            (first : grown (letter :: rest) left.2 = left.2)
            (second : grown (letter :: rest) right.2 = right.2) :
            grown (letter :: rest) (if holds then left else right).2 =
              (if holds then left else right).2 := by
          split
          · exact first
          · exact second
        unfold escapeMeaning
        dsimp only
        rw [if_neg notFeed]
        iterate 8 apply either one
        exact either octalGrown (either (hex 2) (either (hex 4) (either (hex 8) one)))

/-- Whether a backslash that starts an escape stands right in front of a line feed, behind as many
characters as are already spoken for. -/
def joinsFrom : Nat → List Char → Bool
  | _, [] => false
  | skip + 1, _ :: rest => joinsFrom skip rest
  | 0, character :: rest =>
      if character = '\\' then rest.head? = some '\n' || joinsFrom (escapeMeaning rest).2 rest
      else joinsFrom 0 rest

theorem unescape_returned {skip : Nat} (apart : joinsFrom skip text = false) :
    Returned (unescapeFrom skip text) (unescapeFrom (grown text skip) (withReturns text)) := by
  induction text generalizing skip with
  | nil => cases skip <;> exact .nil
  | cons character rest ih =>
      cases skip with
      | succ skip =>
          have later := ih apart
          by_cases feed : character = '\n'
          · rw [feed]
            exact later
          · rw [grown_cons feed, with_returns_cons feed]
            exact later
      | zero =>
          rw [joinsFrom] at apart
          by_cases isBackslash : character = '\\'
          · obtain rfl := isBackslash
            rw [if_pos rfl, Bool.or_eq_false_iff] at apart
            obtain ⟨same, grows⟩ := escape_meaning_returned (by simpa using apart.1)
            have later := ih apart.2
            rw [grows] at later
            rw [grown_zero, with_returns_cons (by decide), unescapeFrom, unescapeFrom, if_pos rfl,
              if_pos rfl, same]
            exact returned_append (returned_same _) later
          · rw [if_neg isBackslash] at apart
            have later := ih apart
            rw [grown_zero] at later
            rw [unescapeFrom, if_neg isBackslash, grown_zero]
            by_cases feed : character = '\n'
            · rw [feed]
              exact .feed later
            · rw [with_returns_cons feed, unescapeFrom, if_neg isBackslash]
              exact .same character later

/-! ## Texts of literals -/

/-- The body of a literal that stands for a text, and whether it is raw. -/
def body? (literal : List Char) : Option (Bool × List Char) := do
  let literal := trim literal
  let flags := literal.takeWhile fun c => c ≠ '\'' && c ≠ '"'
  let lowered := flags.map Char.toLower
  let body := literal.drop flags.length
  let mark ← body.head?
  let quote := if [mark, mark, mark].isPrefixOf body then [mark, mark, mark] else [mark]
  if lowered.all fun letter => letter = 'r' || letter = 'u' then
    (inside? quote body).map fun inner => (lowered.contains 'r', inner)
  else none

theorem text_eq_body (literal : List Char) :
    text? literal = (body? literal).map fun body => if body.1 then body.2 else unescape body.2 := by
  unfold text? body?
  simp only [Option.bind_eq_bind, Option.map_bind]
  apply Option.bind_congr
  intro mark isHead
  rw [Function.comp_apply]
  split
  · rw [Option.map_map]
    exact (Option.map_eq_bind ..).symm
  · rfl

theorem inside_returned {quote : List Char} (onLine : OnLine quote) (more : List Char) :
    inside? quote (quote ++ withReturns more) = (inside? quote (quote ++ more)).map withReturns := by
  have ends : quote.isSuffixOf (withReturns more) = quote.isSuffixOf more := by
    rw [Bool.eq_iff_iff, List.isSuffixOf_iff_suffix, List.isSuffixOf_iff_suffix]
    exact suffix_with_returns onLine more
  rw [inside_of_quote, inside_of_quote, ends]
  split
  next isSuffix =>
    obtain ⟨inner, rfl⟩ := List.isSuffixOf_iff_suffix.mp isSuffix
    rw [with_returns_append, with_returns_of_no_feed onLine.1, List.length_append, List.length_append,
      Nat.add_sub_cancel, Nat.add_sub_cancel, List.take_left, List.take_left]
    rfl
  next => rfl

def quoted? (mark : Char) (body : List Char) : Option (List Char) :=
  inside? (if [mark, mark, mark].isPrefixOf body then [mark, mark, mark] else [mark]) body

theorem quoted_returned {mark : Char} (onLine : OnLine [mark]) (more : List Char) :
    quoted? mark (mark :: withReturns more) = (quoted? mark (mark :: more)).map withReturns := by
  obtain ⟨noFeed, noReturn⟩ : '\n' ≠ mark ∧ '\r' ≠ mark := by simpa [OnLine] using onLine
  have three : OnLine [mark, mark, mark] := by simp [OnLine, noFeed, noReturn]
  have starts := prefix_with_returns three (mark :: more)
  rw [with_returns_cons noFeed.symm] at starts
  unfold quoted?
  rw [starts]
  split
  next triple =>
    obtain ⟨rest, whole⟩ := List.isPrefixOf_iff_prefix.mp triple
    obtain rfl : more = mark :: mark :: rest := by simpa using whole.symm
    rw [with_returns_cons noFeed.symm, with_returns_cons noFeed.symm]
    exact inside_returned three rest
  next => exact inside_returned onLine more

theorem body_returned (literal : List Char) :
    body? (withReturns literal) = (body? literal).map fun body => (body.1, withReturns body.2) := by
  have run := @take_while_with_returns (fun c => c ≠ '\'' && c ≠ '"') (by decide) (trim literal)
  unfold body?
  dsimp only
  rw [trim_with_returns, run]
  generalize isFlags : (trim literal).takeWhile (fun c => c ≠ '\'' && c ≠ '"') = flags
  generalize isBody : (trim literal).dropWhile (fun c => c ≠ '\'' && c ≠ '"') = body
  have whole : trim literal = flags ++ body := by
    rw [← isFlags, ← isBody, List.takeWhile_append_dropWhile]
  rw [whole]
  by_cases feed : '\n' ∈ flags
  · have refused {letters : List Char} (member : '\n' ∈ letters) :
        ((letters.map Char.toLower).all fun letter => letter = 'r' || letter = 'u') = false :=
      List.all_eq_false.mpr ⟨'\n', List.mem_map.mpr ⟨'\n', member, rfl⟩, by decide⟩
    have feedReturned : '\n' ∈ withReturns flags := List.mem_flatMap.mpr ⟨'\n', feed, by decide⟩
    simp only [refused feed, refused feedReturned, Bool.false_eq_true, if_false,
      Option.bind_eq_bind, Option.bind_fun_none, Option.map_none]
  · rw [with_returns_run feed, with_returns_of_no_feed feed, List.drop_left, List.drop_left]
    cases body with
    | nil => rfl
    | cons mark more =>
        have stop := List.head?_dropWhile_not (fun c => c ≠ '\'' && c ≠ '"') (trim literal)
        rw [isBody] at stop
        have quotes : mark = '\'' ∨ mark = '"' := by
          by_contra neither
          simp_all
        have onLine : OnLine [mark] := by rcases quotes with rfl | rfl <;> decide
        have noFeed : mark ≠ '\n' := by rcases quotes with rfl | rfl <;> decide
        have inside := quoted_returned onLine more
        rw [with_returns_cons noFeed]
        unfold quoted? at inside
        simp only [List.head?_cons, Option.bind_eq_bind, Option.bind_some, inside]
        split
        · rw [Option.map_map, Option.map_map]
          rfl
        · rfl

/-- Whether a literal that is not raw has a backslash that carries a line feed along. -/
def joinsLines (literal : List Char) : Bool := (body? literal).any fun body => !body.1 && joinsFrom 0 body.2

/-- A literal stands for the text with returns in front of some line feeds. -/
theorem literal_text_returned {literal : List Char} (apart : joinsLines literal = false) :
    Option.Rel Returned (text? literal) (text? (withReturns literal)) := by
  rw [text_eq_body, text_eq_body, body_returned]
  unfold joinsLines at apart
  cases found : body? literal with
  | none => exact .none
  | some body =>
      obtain ⟨raw, inner⟩ := body
      rw [found] at apart
      refine .some ?_
      cases raw with
      | true => exact returned_with_returns inner
      | false => exact unescape_returned apart

end TaskCab.Source.Quoted
