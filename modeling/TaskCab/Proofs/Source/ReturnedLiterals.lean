import TaskCab.Proofs.Source.LiteralToken
import TaskCab.Proofs.Text.LineEnds

/-!
# Literals with other line ends

A literal of a source whose lines end in a carriage return and a line feed is the literal of the source
before, with the returns put in.
-/

namespace TaskCab.Source.Quoted

open TaskCab.Text

variable {style : Style} {character : Char} {rest text : List Char}

theorem mark_not_end {mark : Char} (quotes : isMark mark = true) : mark ≠ '\n' ∧ mark ≠ '\r' := by
  constructor <;> rintro rfl <;> simp [isMark] at quotes

theorem closing_on_line (quotes : isMark style.mark = true) : OnLine (closing style) := by
  obtain ⟨noFeed, noReturn⟩ := mark_not_end quotes
  unfold closing
  split <;> simp [OnLine, noFeed.symm, noReturn.symm]

theorem closes_with_returns (quotes : isMark style.mark = true) (text : List Char) :
    closes style (withReturns text) = closes style text :=
  prefix_with_returns (closing_on_line quotes) text

theorem grown_closing (quotes : isMark style.mark = true) (closed : closes style text = true) :
    grown text (closing style).length = (closing style).length := by
  obtain ⟨more, rfl⟩ := List.isPrefixOf_iff_prefix.mp closed
  exact grown_run (closing_on_line quotes).1 more

theorem opening_with_returns (text : List Char) : opening? (withReturns text) = opening? text := by
  unfold opening?
  rw [run_with_returns (by decide) (by decide)]
  dsimp only
  rw [drop_run_with_returns (by decide)]
  cases text.drop (text.takeWhile isFlag).length with
  | nil => rfl
  | cons mark rest =>
      by_cases feed : mark = '\n'
      · rw [feed, with_returns_feed]
        rfl
      · rw [with_returns_cons feed]
        dsimp only
        split
        next quotes =>
          obtain ⟨noFeed, noReturn⟩ := mark_not_end quotes
          have two : OnLine [mark, mark] := by simp [OnLine, noFeed.symm, noReturn.symm]
          rw [prefix_with_returns two]
        next => rfl

theorem grown_opening {length : Nat} (opens : opening? text = some (style, length)) :
    grown text length = length := by
  obtain ⟨flags, rest, rfl, areFlags, quotes, rfl, triple, -⟩ := opening_spec opens
  obtain ⟨more, same⟩ := closing_prefix triple
  have noFeed : '\n' ∉ flags ++ closing style := by
    intro member
    rcases List.mem_append.mp member with inFlags | inClosing
    · exact absurd (areFlags _ inFlags) (by decide)
    · exact (closing_on_line quotes).1 inClosing
  rw [same, ← List.append_assoc, ← List.length_append]
  exact grown_run noFeed more

/-! ## Escapes -/

theorem hex_ahead_cons (width : Nat) (character : Char) (rest : List Char) :
    hexAhead (width + 1) (character :: rest) = (isHexDigit character && hexAhead width rest) := by
  simp only [hexAhead, List.take_succ_cons, List.length_cons, List.all_cons, Nat.add_right_cancel_iff]
  rw [← Bool.and_assoc, ← Bool.and_assoc, Bool.and_comm (decide _)]

theorem hex_ahead_with_returns (width : Nat) (text : List Char) :
    hexAhead width (withReturns text) = hexAhead width text := by
  induction width generalizing text with
  | zero => rfl
  | succ width ih =>
      cases text with
      | nil => rfl
      | cons character rest =>
          by_cases feed : character = '\n'
          · rw [feed, with_returns_feed, hex_ahead_cons, hex_ahead_cons]
            rfl
          · rw [with_returns_cons feed, hex_ahead_cons, hex_ahead_cons, ih]

theorem grown_hex {width : Nat} (ahead : hexAhead width text = true) : grown text width = width := by
  simp only [hexAhead, Bool.and_eq_true, decide_eq_true_eq, List.all_eq_true, List.length_take] at ahead
  apply grown_of_no_feed
  · intro member
    exact absurd (ahead.2 _ member) (by decide)
  · omega

theorem name_with_returns (rest : List Char) :
    nameLength (withReturns rest) = grown ('N' :: rest) (nameLength rest) := by
  cases rest with
  | nil => rfl
  | cons brace name =>
      by_cases isBrace : brace = '\x7b'
      · obtain rfl := isBrace
        rw [with_returns_cons (by decide), nameLength, nameLength]
        rw [take_while_with_returns (by decide)]
        generalize same : name.takeWhile (fun c => c ≠ '\x7d' && c ≠ '\x00') = inside
        obtain ⟨more, rfl⟩ : inside <+: name := same ▸ List.takeWhile_prefix _
        rw [with_returns_append, List.drop_left, List.drop_left, is_empty_with_returns]
        simp only [head_with_returns (by decide : OnLine ['\x7d']), ne_eq]
        split
        next => rfl
        next closed =>
          have ends : more.head? = some '\x7d' := by simp_all
          obtain ⟨behind, rfl⟩ : ∃ behind, more = '\x7d' :: behind := by
            cases more with
            | nil => simp at ends
            | cons first behind => exact ⟨behind, by simpa using ends⟩
          rw [grown_cons (by decide), grown_cons (by decide), grown_add, List.drop_left,
            grown_cons (by decide), grown_append]
          rfl
      · by_cases feed : brace = '\n'
        · rw [feed]
          rfl
        · rw [with_returns_cons feed]
          simp [nameLength, isBrace, grown_zero]

theorem escape_with_returns (noReturn : '\r' ∉ rest) :
    escapeLength (withReturns rest) = grown rest (escapeLength rest) := by
  cases rest with
  | nil => rfl
  | cons letter rest =>
      by_cases feed : letter = '\n'
      · rw [feed]
        rfl
      have notReturn : letter ≠ '\r' := fun same => noReturn (same ▸ .head _)
      rw [with_returns_cons feed, escape_length_eq, escape_length_eq, hex_ahead_with_returns,
        hex_ahead_with_returns, hex_ahead_with_returns, take_run_with_returns (by decide) (by decide),
        name_with_returns, if_neg feed, if_neg notReturn, if_neg feed, if_neg notReturn]
      have hex (width : Nat) : (if hexAhead width rest = true then width + 1 else 0) =
          grown (letter :: rest) (if hexAhead width rest = true then width + 1 else 0) := by
        split
        next ahead => rw [grown_cons feed, grown_hex ahead]
        next => rfl
      split
      · exact hex 4
      split
      · exact hex 8
      split
      · exact hex 2
      split
      · rw [Nat.add_comm 1, grown_cons feed, grown_take_run (by decide)]
      split
      next isName => rw [isName]
      split
      · rw [grown_cons feed]
        rfl
      · rfl

theorem line_end_with_returns (noReturn : '\r' ∉ text) :
    lineEndLength (withReturns text) = grown text (lineEndLength text) := by
  cases text with
  | nil => rfl
  | cons character rest =>
      have notReturn : character ≠ '\r' := fun same => noReturn (same ▸ .head _)
      by_cases feed : character = '\n'
      · rw [feed]
        rfl
      · rw [with_returns_cons feed]
        simp [lineEndLength, notReturn, feed, grown_zero]

theorem raw_with_returns {mark : Char} (quotes : isMark mark = true) (noReturn : '\r' ∉ text) :
    rawLength mark (withReturns text) = grown text (rawLength mark text) := by
  cases text with
  | nil => rfl
  | cons character rest =>
      have later := line_end_with_returns fun member => noReturn (.tail _ member)
      by_cases feed : character = '\n'
      · have noMark : '\n' ≠ mark := (mark_not_end quotes).1.symm
        have noReturnMark : '\r' ≠ mark := (mark_not_end quotes).2.symm
        rw [feed, with_returns_feed, raw_length_cons, raw_length_cons]
        simp [noMark, noReturnMark, lineEndLength, grown_feed, grown_zero]
      · have here := line_end_with_returns noReturn
        rw [with_returns_cons feed] at here ⊢
        rw [raw_length_cons, raw_length_cons]
        split
        · rw [Nat.add_comm 1, Nat.add_comm 1, grown_cons feed, later]
        · exact here

/-- Whether a backslash carries a letter along together with the line feed behind it, which only one in a
literal of bytes does. -/
def CarriesFeed (style : Style) (rest : List Char) : Prop :=
  style.raw = false ∧ style.bytes = true ∧
    ∃ letter more, rest = letter :: '\n' :: more ∧ "NuU".toList.contains letter = true

theorem bytes_length (notRaw : style.raw = false) (bytes : style.bytes = true) {letter : Char}
    (isLetter : "NuU".toList.contains letter = true) (rest : List Char) :
    backslashLength style (letter :: rest) = 2 := by
  rw [backslashLength, notRaw, bytes, if_neg Bool.false_ne_true, List.head?_cons, Option.any_some,
    isLetter]
  rfl

theorem backslash_with_returns (quotes : isMark style.mark = true) (noReturn : '\r' ∉ rest)
    (apart : ¬CarriesFeed style rest) :
    backslashLength style (withReturns rest) = grown rest (backslashLength style rest) := by
  cases rest with
  | nil => exact (grown_nil _).symm
  | cons letter rest =>
      have raw := raw_with_returns quotes noReturn
      have escape := escape_with_returns noReturn
      by_cases feed : letter = '\n'
      · rw [feed] at raw escape ⊢
        rw [with_returns_feed] at raw escape ⊢
        unfold backslashLength
        split
        · exact raw
        · rw [if_neg (by simp), if_neg (by simp)]
          exact escape
      · rw [with_returns_cons feed] at raw escape ⊢
        unfold backslashLength
        split
        · exact raw
        next notRaw =>
        rw [List.head?_cons, List.head?_cons]
        split
        next isLetter =>
          obtain ⟨bytes, isLetter⟩ := Bool.and_eq_true_iff.mp isLetter
          cases rest with
          | nil => rw [grown_cons feed, grown_nil]
          | cons next more =>
              have noFeed : next ≠ '\n' := by
                rintro rfl
                exact apart ⟨by simpa using notRaw, bytes, letter, more, rfl, isLetter⟩
              rw [grown_cons feed, grown_cons noFeed, grown_zero]
        · exact escape

/-! ## The end of a literal -/

theorem closing_from_drop (plain : Bool) (skip : Nat) (text : List Char) :
    closingFrom? style plain skip text =
      (closingFrom? style plain 0 (text.drop skip)).map (· + skip) := by
  induction text generalizing skip with
  | nil => cases skip <;> rfl
  | cons character rest ih =>
      cases skip with
      | zero => simp
      | succ skip =>
          rw [closingFrom?, ih, List.drop_succ_cons, Option.map_map]
          rfl

theorem not_closes_of_ne (different : style.mark ≠ character) (rest : List Char) :
    closes style (character :: rest) = false := by
  have first : (style.mark == character) = false := beq_eq_false_iff_ne.mpr different
  unfold closes
  split <;> rw [List.isPrefixOf, first] <;> rfl

theorem closing_from_feed (quotes : isMark style.mark = true) (plain : Bool) (rest : List Char) :
    closingFrom? style plain 0 ('\n' :: rest) =
      if plain && !style.triple then none else (closingFrom? style true 0 rest).map (· + 1) := by
  rw [closingFrom?, if_neg (by decide), if_neg (by decide), not_closes_of_ne (mark_not_end quotes).1]
  simp

theorem closing_from_return (quotes : isMark style.mark = true) (plain : Bool) (rest : List Char) :
    closingFrom? style plain 0 ('\r' :: rest) = (closingFrom? style true 0 rest).map (· + 1) := by
  rw [closingFrom?, if_neg (by decide), if_neg (by decide), not_closes_of_ne (mark_not_end quotes).2]
  simp

/-- Both ways through a line feed that is carried along lead to the text behind it. -/
theorem closing_carried (quotes : isMark style.mark = true) (carries : CarriesFeed style rest)
    (plain : Bool) :
    ∃ letter more, rest = letter :: '\n' :: more ∧ letter ≠ '\n' ∧
      closingFrom? style (plain && style.raw) (backslashLength style rest) rest =
        (closingFrom? style false 0 more).map (· + 2) ∧
      closingFrom? style (plain && style.raw) (backslashLength style (withReturns rest))
          (withReturns rest) = (closingFrom? style true 0 (withReturns more)).map (· + 3) := by
  obtain ⟨notRaw, bytes, letter, more, rfl, isLetter⟩ := carries
  have noFeed : letter ≠ '\n' := by
    rintro rfl
    simp at isLetter
  refine ⟨letter, more, rfl, noFeed, ?_, ?_⟩
  · rw [bytes_length notRaw bytes isLetter, closing_from_drop, notRaw, Bool.and_false]
    rfl
  · rw [with_returns_cons noFeed, bytes_length notRaw bytes isLetter, closing_from_drop,
      with_returns_feed, List.drop_succ_cons, List.drop_succ_cons, List.drop_zero,
      closing_from_feed quotes, notRaw, Bool.and_false, Bool.false_and, if_neg Bool.false_ne_true,
      Option.map_map]
    rfl

/-- Whether what closes a literal with the returns put in closes the one before, which may have to be on
one line where the other need not. -/
def ClosesAlike (style : Style) (plain other : Bool) (text : List Char) : Prop :=
  ∀ count, closingFrom? style other 0 (withReturns text) = some count →
    ∃ before, closingFrom? style plain 0 text = some before ∧ count = grown text before

section

variable {plain other : Bool} {character : Char}

theorem closes_alike_feed (quotes : isMark style.mark = true) (later : ClosesAlike style true true rest) :
    ClosesAlike style plain other ('\n' :: rest) := by
  intro count found
  rw [with_returns_feed, closing_from_return quotes, closing_from_feed quotes] at found
  rw [closing_from_feed quotes]
  cases triple : style.triple with
  | false => simp [triple] at found
  | true =>
      simp only [triple, Bool.not_true, Bool.and_false, Bool.false_eq_true, if_false,
        Option.map_map, Option.map_eq_some_iff] at found ⊢
      obtain ⟨inner, closed, rfl⟩ := found
      obtain ⟨before, same, rfl⟩ := later inner closed
      exact ⟨before + 1, ⟨before, same, rfl⟩, rfl⟩

theorem closes_alike_carried (quotes : isMark style.mark = true) (carries : CarriesFeed style rest)
    (later : ClosesAlike style false true (rest.drop 2)) : ClosesAlike style plain other ('\\' :: rest) := by
  intro count found
  obtain ⟨letter, more, rfl, noFeed, -, grows⟩ := closing_carried quotes carries other
  obtain ⟨_, _, same, -, keeps, -⟩ := closing_carried quotes carries plain
  obtain ⟨rfl, rfl⟩ : letter = _ ∧ more = _ := by simpa using same
  rw [with_returns_cons (by decide), closingFrom?, if_neg (by decide), if_pos rfl, grows,
    Option.map_map] at found
  obtain ⟨inner, ended, rfl⟩ := Option.map_eq_some_iff.mp found
  obtain ⟨before, same, rfl⟩ := later inner ended
  rw [List.drop_succ_cons, List.drop_succ_cons, List.drop_zero] at same
  rw [closingFrom?, if_neg (by decide), if_pos rfl, keeps, same]
  refine ⟨before + 3, rfl, ?_⟩
  rw [grown_cons (by decide), grown_cons noFeed, grown_feed]
  rfl

theorem closes_alike_backslash (quotes : isMark style.mark = true) (noReturn : '\r' ∉ rest)
    (apart : ¬CarriesFeed style rest)
    (later : ClosesAlike style (plain && style.raw) (other && style.raw)
      (rest.drop (backslashLength style rest))) : ClosesAlike style plain other ('\\' :: rest) := by
  intro count found
  rw [with_returns_cons (by decide), closingFrom?, if_neg (by decide), if_pos rfl,
    backslash_with_returns quotes noReturn apart, closing_from_drop, drop_with_returns,
    Option.map_map] at found
  obtain ⟨inner, ended, rfl⟩ := Option.map_eq_some_iff.mp found
  obtain ⟨before, same, rfl⟩ := later inner ended
  rw [closingFrom?, if_neg (by decide), if_pos rfl, closing_from_drop, same]
  refine ⟨backslashLength style rest + before + 1, by rw [Nat.add_comm _ before]; rfl, ?_⟩
  rw [grown_cons (by decide), grown_add]
  exact congrArg (· + 1) (Nat.add_comm _ _)

theorem closes_alike_character (quotes : isMark style.mark = true) (noFeed : character ≠ '\n')
    (noBackslash : character ≠ '\\') (later : ClosesAlike style true true rest) :
    ClosesAlike style plain other (character :: rest) := by
  intro count found
  have closesSame := closes_with_returns quotes (character :: rest)
  rw [with_returns_cons noFeed] at found closesSame
  rw [closingFrom?] at found ⊢
  rw [closesSame] at found
  split at found
  next => simp at found
  next notNull =>
  rw [if_neg notNull, if_neg noBackslash]
  split at found
  next closed =>
    obtain rfl := Option.some.inj found
    rw [if_pos closed]
    refine ⟨_, rfl, ?_⟩
    rw [← closing_length, grown_closing quotes closed]
  next notClosed =>
  rw [if_neg notClosed]
  simp only [noFeed, decide_false, Bool.false_and, Bool.false_eq_true, if_false,
    Option.map_eq_some_iff] at found ⊢
  obtain ⟨inner, ended, rfl⟩ := found
  obtain ⟨before, same, rfl⟩ := later inner ended
  exact ⟨before + 1, ⟨before, same, rfl⟩, (grown_cons noFeed _ _).symm⟩

/-- What closes a literal with the returns put in closes the one before. The converse fails where a line
feed is only allowed because no plain text comes before it. -/
theorem closing_of_returns (quotes : isMark style.mark = true) (bound : Nat) {text : List Char}
    (within : text.length ≤ bound) (noReturn : '\r' ∉ text) (weaker : plain = true → other = true) :
    ClosesAlike style plain other text := by
  induction bound generalizing text plain other with
  | zero =>
      obtain rfl : text = [] := List.length_eq_zero_iff.mp (by omega)
      intro count found
      simp [withReturns, closingFrom?] at found
  | succ bound ih =>
  cases text with
  | nil =>
      intro count found
      simp [withReturns, closingFrom?] at found
  | cons character rest =>
      have noLater : '\r' ∉ rest := fun member => noReturn (.tail _ member)
      have shorter : rest.length ≤ bound := by simpa using within
      have behind {plain other : Bool} (weaker : plain = true → other = true) (skip : Nat) :
          ClosesAlike style plain other (rest.drop skip) :=
        ih (by rw [List.length_drop]; omega) (fun member => noLater (List.mem_of_mem_drop member)) weaker
      by_cases feed : character = '\n'
      · exact feed ▸ closes_alike_feed quotes (behind (fun same => same) 0)
      by_cases isBackslash : character = '\\'
      · obtain rfl := isBackslash
        by_cases carries : CarriesFeed style rest
        · exact closes_alike_carried quotes carries (behind (by simp) 2)
        · apply closes_alike_backslash quotes noLater carries
          refine behind ?_ _
          cases plain with
          | false => simp
          | true => simp [weaker rfl]
      · exact closes_alike_character quotes feed isBackslash (behind (fun same => same) 0)

end

/-! ## The end of a literal with replacement fields -/

def Enclosing.Marked : Enclosing → Prop
  | .body style => isMark style.mark = true
  | .field _ | .format | .comment => True

variable {here : Enclosing} {outer enclosing : List Enclosing}

theorem step_at_return (marked : here.Marked) (outer : List Enclosing) (rest : List Char) :
    enclosingStep here outer '\r' rest = (here :: outer, 0) := by
  cases here with
  | body style =>
      rw [enclosingStep, bodyStep, if_neg (by decide), not_closes_of_ne (mark_not_end marked).2]
      simp
  | field depth => rfl
  | format => rfl
  | comment => rfl

def afterFeed (here : Enclosing) (outer : List Enclosing) : List Enclosing :=
  if here = .comment then outer else here :: outer

theorem step_at_feed (marked : here.Marked) (outer : List Enclosing) (rest : List Char) :
    enclosingStep here outer '\n' rest = (afterFeed here outer, 0) := by
  cases here with
  | body style =>
      rw [enclosingStep, bodyStep, if_neg (by decide), not_closes_of_ne (mark_not_end marked).1]
      simp [afterFeed]
  | field depth => rfl
  | format => rfl
  | comment => rfl

theorem field_with_returns (noFeed : character ≠ '\n') (depth : Nat) (outer : List Enclosing)
    (rest : List Char) :
    fieldStep depth outer character (withReturns rest) =
      ((fieldStep depth outer character rest).1, grown rest (fieldStep depth outer character rest).2) := by
  have opens := opening_with_returns (character :: rest)
  rw [with_returns_cons noFeed] at opens
  unfold fieldStep
  rw [opens]
  split
  next style length opened =>
    have grows := grown_opening opened
    cases length with
    | zero => rfl
    | succ length =>
        rw [grown_cons noFeed] at grows
        simp only [Nat.add_sub_cancel, Nat.add_right_cancel_iff] at grows ⊢
        rw [grows]
  next none =>
    split
    · rw [run_with_returns (by decide) (by decide), grown_take_while (by decide)]
    split
    · rfl
    split
    · rfl
    split
    · rfl
    split <;> rfl

theorem body_with_returns (quotes : isMark style.mark = true) (noFeed : character ≠ '\n')
    (noReturn : '\r' ∉ rest) (apart : character = '\\' → ¬CarriesFeed style rest)
    (outer : List Enclosing) :
    bodyStep style outer character (withReturns rest) =
      ((bodyStep style outer character rest).1, grown rest (bodyStep style outer character rest).2) := by
  have closesSame := closes_with_returns quotes (character :: rest)
  rw [with_returns_cons noFeed] at closesSame
  unfold bodyStep
  rw [closesSame]
  split
  next isBackslash => rw [backslash_with_returns quotes noReturn (apart isBackslash)]
  split
  next closed =>
    have grows := grown_closing quotes closed
    rw [closing_length] at grows
    split at grows
    next triple =>
      rw [grown_cons noFeed] at grows
      rw [if_pos triple, Nat.add_right_cancel grows]
    next single =>
      rw [if_neg single]
      rfl
  split
  next isBrace =>
    have cases : character = '\x7b' ∨ character = '\x7d' := by simp_all
    have onLine : OnLine [character] := by rcases cases with rfl | rfl <;> decide
    simp only [head_with_returns onLine]
    split
    next doubled =>
      cases rest with
      | nil => simp at doubled
      | cons next more =>
          obtain rfl : next = character := by simpa using doubled
          rw [grown_cons noFeed]
          rfl
    split <;> rfl
  next => rfl

theorem step_with_returns (marked : here.Marked) (noFeed : character ≠ '\n') (noReturn : '\r' ∉ rest)
    (apart : ∀ style, here = .body style → character = '\\' → ¬CarriesFeed style rest)
    (outer : List Enclosing) :
    enclosingStep here outer character (withReturns rest) =
      ((enclosingStep here outer character rest).1,
        grown rest (enclosingStep here outer character rest).2) := by
  cases here with
  | body style => exact body_with_returns marked noFeed noReturn (apart style rfl) outer
  | field depth => exact field_with_returns noFeed depth outer rest
  | format =>
      unfold enclosingStep
      dsimp only
      split
      · rfl
      split <;> rfl
  | comment =>
      unfold enclosingStep
      dsimp only
      split <;> rfl

theorem mark_of_opening {length : Nat} (opens : opening? text = some (style, length)) :
    isMark style.mark = true := by
  obtain ⟨-, -, -, -, quotes, -⟩ := opening_spec opens
  exact quotes

theorem marked_of_step (marked : here.Marked) (all : ∀ enclosing ∈ outer, enclosing.Marked)
    (character : Char) (rest : List Char) :
    ∀ enclosing ∈ (enclosingStep here outer character rest).1, enclosing.Marked := by
  have more {next : Enclosing} {others : List Enclosing} (first : next.Marked)
      (later : ∀ enclosing ∈ others, enclosing.Marked) :
      ∀ enclosing ∈ next :: others, enclosing.Marked := List.forall_mem_cons.mpr ⟨first, later⟩
  have same := more marked all
  cases here with
  | body style =>
      unfold enclosingStep bodyStep
      dsimp only
      repeat' split
      all_goals first
        | exact same
        | exact all
        | exact more trivial same
  | field depth =>
      unfold enclosingStep fieldStep
      dsimp only
      split
      next opened => exact more (mark_of_opening opened) same
      repeat' split
      all_goals first
        | exact same
        | exact all
        | exact more trivial same
        | exact more trivial all
  | format =>
      unfold enclosingStep
      dsimp only
      repeat' split
      all_goals first
        | exact same
        | exact all
        | exact more trivial same
  | comment =>
      unfold enclosingStep
      dsimp only
      split
      · exact all
      · exact same

theorem fields_from_drop (here : Enclosing) (outer : List Enclosing) (skip : Nat) (text : List Char) :
    closingFields? (here :: outer) skip text =
      (closingFields? (here :: outer) 0 (text.drop skip)).map (· + skip) := by
  induction text generalizing skip with
  | nil => cases skip <;> rfl
  | cons character rest ih =>
      cases skip with
      | zero => simp
      | succ skip =>
          have step : closingFields? (here :: outer) (skip + 1) (character :: rest) =
              (closingFields? (here :: outer) skip rest).map (· + 1) := rfl
          rw [step, ih, List.drop_succ_cons, Option.map_map]
          rfl

theorem fields_from_feed (marked : here.Marked) (outer : List Enclosing) (rest : List Char) :
    closingFields? (here :: outer) 0 ('\n' :: rest) =
      (closingFields? (afterFeed here outer) 0 rest).map (· + 1) := by
  rw [closingFields?, step_at_feed marked]

theorem fields_from_return (marked : here.Marked) (outer : List Enclosing) (rest : List Char) :
    closingFields? (here :: outer) 0 ('\r' :: rest) =
      (closingFields? (here :: outer) 0 rest).map (· + 1) := by
  rw [closingFields?, step_at_return marked]

/-- Both ways through a line feed that is carried along lead to the text behind it. -/
theorem fields_carried (quotes : isMark style.mark = true) (carries : CarriesFeed style rest)
    (outer : List Enclosing) :
    ∃ letter more, rest = letter :: '\n' :: more ∧ letter ≠ '\n' ∧
      closingFields? (.body style :: outer) 0 ('\\' :: rest) =
        (closingFields? (.body style :: outer) 0 more).map (· + 3) ∧
      closingFields? (.body style :: outer) 0 ('\\' :: withReturns rest) =
        (closingFields? (.body style :: outer) 0 (withReturns more)).map (· + 4) := by
  obtain ⟨notRaw, bytes, letter, more, rfl, isLetter⟩ := carries
  have noFeed : letter ≠ '\n' := by
    rintro rfl
    simp at isLetter
  have step (behind : List Char) : enclosingStep (.body style) outer '\\' (letter :: behind) =
      (.body style :: outer, 2) := by
    rw [enclosingStep, bodyStep, if_pos rfl, bytes_length notRaw bytes isLetter]
  refine ⟨letter, more, rfl, noFeed, ?_, ?_⟩
  · rw [closingFields?, step]
    dsimp only
    rw [fields_from_drop _ _ 2, Option.map_map]
    rfl
  · rw [with_returns_cons noFeed, with_returns_feed, closingFields?, step]
    dsimp only
    rw [fields_from_drop _ _ 2, List.drop_succ_cons, List.drop_succ_cons, List.drop_zero,
      @fields_from_feed (.body style) quotes, Option.map_map, Option.map_map]
    rfl

/-- Whether what ends the text with the returns put in ends the one before. -/
def EndsAlike (enclosing : List Enclosing) (text : List Char) : Prop :=
  ∀ count, closingFields? enclosing 0 (withReturns text) = some count →
    ∃ before, closingFields? enclosing 0 text = some before ∧ count = grown text before

theorem ends_alike_feed (marked : here.Marked) (later : EndsAlike (afterFeed here outer) rest) :
    EndsAlike (here :: outer) ('\n' :: rest) := by
  intro count found
  rw [with_returns_feed, fields_from_return marked, fields_from_feed marked, Option.map_map] at found
  obtain ⟨inner, ended, rfl⟩ := Option.map_eq_some_iff.mp found
  obtain ⟨before, same, rfl⟩ := later inner ended
  rw [fields_from_feed marked, same]
  exact ⟨before + 1, rfl, rfl⟩

theorem ends_alike_carried (quotes : isMark style.mark = true) (carries : CarriesFeed style rest)
    (later : EndsAlike (.body style :: outer) (rest.drop 2)) :
    EndsAlike (.body style :: outer) ('\\' :: rest) := by
  intro count found
  obtain ⟨letter, more, rfl, noFeed, keeps, grows⟩ := fields_carried quotes carries outer
  rw [with_returns_cons (by decide), grows] at found
  obtain ⟨inner, ended, rfl⟩ := Option.map_eq_some_iff.mp found
  obtain ⟨before, same, rfl⟩ := later inner ended
  rw [List.drop_succ_cons, List.drop_succ_cons, List.drop_zero] at same
  refine ⟨before + 3, by rw [keeps, same]; rfl, ?_⟩
  rw [grown_cons (by decide), grown_cons noFeed, grown_feed]
  rfl

theorem ends_alike_character (marked : here.Marked) (noFeed : character ≠ '\n') (noReturn : '\r' ∉ rest)
    (apart : ∀ style, here = .body style → character = '\\' → ¬CarriesFeed style rest)
    (later : EndsAlike (enclosingStep here outer character rest).1
      (rest.drop (enclosingStep here outer character rest).2)) :
    EndsAlike (here :: outer) (character :: rest) := by
  intro count found
  rw [with_returns_cons noFeed, closingFields?, step_with_returns marked noFeed noReturn apart] at found
  rw [closingFields?]
  generalize enclosingStep here outer character rest = step at found later
  obtain ⟨enclosing, skip⟩ := step
  dsimp only at found later ⊢
  obtain ⟨inner, ended, rfl⟩ := Option.map_eq_some_iff.mp found
  cases enclosing with
  | nil =>
      rw [closingFields?] at ended ⊢
      obtain rfl := Option.some.inj ended
      exact ⟨skip + 1, rfl, (grown_cons noFeed _ _).symm⟩
  | cons next others =>
      rw [fields_from_drop, drop_with_returns] at ended
      obtain ⟨inside, closed, rfl⟩ := Option.map_eq_some_iff.mp ended
      obtain ⟨before, same, rfl⟩ := later inside closed
      rw [fields_from_drop, same]
      refine ⟨skip + before + 1, by rw [Nat.add_comm skip]; rfl, ?_⟩
      rw [grown_cons noFeed, grown_add]
      exact congrArg (· + 1) (Nat.add_comm _ _)

/-- What ends a literal with the returns put in ends the one before. -/
theorem fields_of_returns (bound : Nat) {text : List Char} (within : text.length ≤ bound)
    (noReturn : '\r' ∉ text) {enclosing : List Enclosing} (marked : ∀ here ∈ enclosing, here.Marked) :
    EndsAlike enclosing text := by
  induction bound generalizing text enclosing with
  | zero =>
      obtain rfl : text = [] := List.length_eq_zero_iff.mp (by omega)
      exact fun count found => ⟨count, found, (grown_nil count).symm⟩
  | succ bound ih =>
  cases enclosing with
  | nil =>
      intro count found
      rw [closingFields?] at found
      obtain rfl := Option.some.inj found
      exact ⟨0, by rw [closingFields?], rfl⟩
  | cons here outer =>
  cases text with
  | nil =>
      intro count found
      simp [withReturns, closingFields?] at found
  | cons character rest =>
      have noLater : '\r' ∉ rest := fun member => noReturn (.tail _ member)
      have shorter : rest.length ≤ bound := by simpa using within
      have isMarked := marked here (.head _)
      have outerMarked : ∀ next ∈ outer, next.Marked := fun next member => marked next (.tail _ member)
      have behind {enclosing : List Enclosing} (marked : ∀ here ∈ enclosing, here.Marked) (skip : Nat) :
          EndsAlike enclosing (rest.drop skip) :=
        ih (by rw [List.length_drop]; omega) (fun member => noLater (List.mem_of_mem_drop member)) marked
      by_cases feed : character = '\n'
      · subst feed
        refine ends_alike_feed isMarked (behind ?_ 0)
        unfold afterFeed
        split
        · exact outerMarked
        · exact marked
      by_cases carries : ∃ style, here = .body style ∧ character = '\\' ∧ CarriesFeed style rest
      · obtain ⟨style, rfl, rfl, carries⟩ := carries
        exact ends_alike_carried isMarked carries (behind marked 2)
      · have apart (style : Style) (isBody : here = .body style) (isBackslash : character = '\\') :
            ¬CarriesFeed style rest := fun carriesFeed => carries ⟨style, isBody, isBackslash, carriesFeed⟩
        exact ends_alike_character isMarked feed noLater apart
          (behind (marked_of_step isMarked outerMarked character rest) _)

/-- The length of a literal with the returns put in is that of the one before, with the returns. -/
theorem length_of_returns {text : List Char} (noReturn : '\r' ∉ text) {length : Nat}
    (found : length? (withReturns text) = some length) :
    ∃ before, length? text = some before ∧ length = grown text before := by
  have opens := opening_with_returns text
  cases opened : opening? text with
  | none =>
      rw [opened] at opens
      simp [length?, opens] at found
  | some opening =>
      obtain ⟨style, front⟩ := opening
      rw [opened] at opens
      have quotes := mark_of_opening opened
      have frontSame := grown_opening opened
      have body := drop_with_returns text front
      rw [frontSame] at body
      rw [length_of_opening opens, body] at found
      obtain ⟨inner, ended, rfl⟩ := Option.map_eq_some_iff.mp found
      have noInside : '\r' ∉ text.drop front := fun member => noReturn (List.mem_of_mem_drop member)
      rw [length_of_opening opened]
      have total (before : Nat) : front + grown (text.drop front) before = grown text (front + before) := by
        rw [grown_add, frontSame]
      split at ended
      next format =>
        have marked : (Enclosing.body style).Marked := quotes
        obtain ⟨before, same, rfl⟩ := fields_of_returns _ (Nat.le_refl _) noInside
          (List.forall_mem_singleton.mpr marked) inner ended
        exact ⟨front + before, by rw [if_pos format, same]; rfl, total before⟩
      next noFormat =>
        obtain ⟨before, same, rfl⟩ :=
          closing_of_returns quotes _ (Nat.le_refl _) noInside (fun same => same) inner ended
        exact ⟨front + before, by rw [if_neg noFormat, same]; rfl, total before⟩

end TaskCab.Source.Quoted
