import Mathlib.Data.List.Induction
import TaskCab.Proofs.Text.Joined
import TaskCab.Proofs.Text.Trim

/-!
# Line ends of two characters

A text may end its lines with a carriage return and a line feed instead of the line feed alone. What is
looked for in it does not change as long as the two characters count the same, and its lines are those of
the text before.
-/

namespace TaskCab.Text

def withReturn (character : Char) : List Char :=
  if character = '\n' then ['\r', '\n'] else [character]

/-- A text with a carriage return in front of each line feed. -/
def withReturns (text : List Char) : List Char := text.flatMap withReturn

variable {text : List Char} {character : Char}

theorem with_returns_feed (rest : List Char) :
    withReturns ('\n' :: rest) = '\r' :: '\n' :: withReturns rest := rfl

theorem with_returns_cons (noFeed : character ≠ '\n') (rest : List Char) :
    withReturns (character :: rest) = character :: withReturns rest := by
  rw [withReturns, List.flatMap_cons, withReturn, if_neg noFeed]
  rfl

theorem with_returns_append (left right : List Char) :
    withReturns (left ++ right) = withReturns left ++ withReturns right := List.flatMap_append

theorem with_returns_of_no_feed (noFeed : '\n' ∉ text) : withReturns text = text := by
  induction text with
  | nil => rfl
  | cons character rest ih =>
      have different : character ≠ '\n' := fun same => noFeed (same ▸ .head _)
      rw [with_returns_cons different, ih fun later => noFeed (.tail _ later)]

theorem with_returns_run {run : List Char} (noFeed : '\n' ∉ run) (rest : List Char) :
    withReturns (run ++ rest) = run ++ withReturns rest := by
  rw [with_returns_append, with_returns_of_no_feed noFeed]

theorem return_mem_of_feed (feed : '\n' ∈ text) : '\r' ∈ withReturns text :=
  List.mem_flatMap.mpr ⟨'\n', feed, by decide⟩

def OnLine (text : List Char) : Prop := '\n' ∉ text ∧ '\r' ∉ text

instance (text : List Char) : Decidable (OnLine text) := inferInstanceAs (Decidable (_ ∧ _))

/-- A text on one line comes out of itself alone. -/
theorem with_returns_eq_iff {other : List Char} (onLine : OnLine other) :
    withReturns text = other ↔ text = other := by
  by_cases feed : '\n' ∈ text
  · have changed : withReturns text ≠ other := fun same =>
      onLine.2 (same ▸ return_mem_of_feed feed)
    have different : text ≠ other := fun same => onLine.1 (same ▸ feed)
    exact iff_of_false changed different
  · rw [with_returns_of_no_feed feed]

/-- A text stays as it is exactly if it has no line feed. -/
theorem with_returns_same_iff (text : List Char) : withReturns text = text ↔ '\n' ∉ text := by
  refine ⟨fun same => ?_, with_returns_of_no_feed⟩
  induction text with
  | nil => simp
  | cons character rest ih =>
      by_cases feed : character = '\n'
      · rw [feed, with_returns_feed] at same
        simp at same
      · rw [with_returns_cons feed] at same
        exact List.not_mem_cons_of_ne_of_not_mem (Ne.symm feed) (ih (List.cons.inj same).2)

theorem is_empty_with_returns (text : List Char) : (withReturns text).isEmpty = text.isEmpty := by
  cases text with
  | nil => rfl
  | cons character rest =>
      by_cases feed : character = '\n'
      · rw [feed]
        rfl
      · rw [with_returns_cons feed]
        rfl

theorem head_with_returns (onLine : OnLine [character]) (text : List Char) :
    (withReturns text).head? = some character ↔ text.head? = some character := by
  cases text with
  | nil => rfl
  | cons first rest =>
      by_cases feed : first = '\n'
      · obtain ⟨noFeed, noReturn⟩ : '\n' ≠ character ∧ '\r' ≠ character := by simpa [OnLine] using onLine
        rw [feed, with_returns_feed, List.head?_cons, List.head?_cons]
        exact iff_of_false (by simpa using noReturn) (by simpa using noFeed)
      · rw [with_returns_cons feed]
        rfl

/-- A fold does not see the returns if the line feed behind one undoes it. -/
theorem foldl_with_returns {State : Type} {step : State → Char → State}
    (undone : ∀ state, step (step state '\r') '\n' = step state '\n') (state : State) (text : List Char) :
    (withReturns text).foldl step state = text.foldl step state := by
  induction text generalizing state with
  | nil => rfl
  | cons character rest ih =>
      by_cases feed : character = '\n'
      · rw [feed, with_returns_feed, List.foldl_cons, List.foldl_cons, List.foldl_cons, undone, ih]
      · rw [with_returns_cons feed, List.foldl_cons, List.foldl_cons, ih]

/-! ## Cutting -/

/-- The length that so many characters at the front of a text come to. -/
def grown : List Char → Nat → Nat
  | _, 0 => 0
  | [], count + 1 => count + 1
  | character :: rest, count + 1 => grown rest count + (withReturn character).length
termination_by structural _ count => count

theorem grown_zero (text : List Char) : grown text 0 = 0 := rfl

theorem grown_nil (count : Nat) : grown [] count = count := by cases count <;> rfl

theorem grown_feed (rest : List Char) (count : Nat) :
    grown ('\n' :: rest) (count + 1) = grown rest count + 2 := rfl

theorem grown_cons (noFeed : character ≠ '\n') (rest : List Char) (count : Nat) :
    grown (character :: rest) (count + 1) = grown rest count + 1 := by
  rw [grown, withReturn, if_neg noFeed]
  rfl

theorem grown_add (text : List Char) (count more : Nat) :
    grown text (count + more) = grown text count + grown (text.drop count) more := by
  induction count generalizing text with
  | zero => rw [Nat.zero_add, grown_zero, Nat.zero_add, List.drop_zero]
  | succ count ih =>
      cases text with
      | nil => rw [List.drop_nil, grown_nil, grown_nil, grown_nil]
      | cons character rest =>
          rw [Nat.add_right_comm, grown, grown, ih, List.drop_succ_cons]
          omega

theorem grown_append (text rest : List Char) : grown (text ++ rest) text.length = (withReturns text).length := by
  induction text with
  | nil => exact grown_zero rest
  | cons character text ih =>
      rw [List.cons_append, List.length_cons, grown, ih, withReturns, withReturns, List.flatMap_cons,
        List.length_append, Nat.add_comm]

theorem grown_run {run : List Char} (noFeed : '\n' ∉ run) (rest : List Char) :
    grown (run ++ rest) run.length = run.length := by
  rw [grown_append, with_returns_of_no_feed noFeed]

theorem grown_of_no_feed {count : Nat} (noFeed : '\n' ∉ text.take count) (within : count ≤ text.length) :
    grown text count = count := by
  have run := grown_run noFeed (text.drop count)
  rwa [List.take_append_drop, List.length_take, Nat.min_eq_left within] at run

theorem take_with_returns (text : List Char) (count : Nat) :
    (withReturns text).take (grown text count) = withReturns (text.take count) := by
  induction count generalizing text with
  | zero => rw [grown_zero, List.take_zero, List.take_zero]; rfl
  | succ count ih =>
      cases text with
      | nil => rfl
      | cons character rest =>
          rw [grown, Nat.add_comm, withReturns, List.flatMap_cons, List.take_length_add_append,
            List.take_succ_cons]
          exact congrArg (withReturn character ++ ·) (ih rest)

theorem drop_with_returns (text : List Char) (count : Nat) :
    (withReturns text).drop (grown text count) = withReturns (text.drop count) := by
  induction count generalizing text with
  | zero => rw [grown_zero, List.drop_zero, List.drop_zero]
  | succ count ih =>
      cases text with
      | nil => rfl
      | cons character rest =>
          rw [grown, Nat.add_comm, withReturns, List.flatMap_cons, List.drop_length_add_append]
          exact ih rest

/-! ## Runs -/

section

variable {belongs : Char → Bool}

theorem take_while_with_returns (alike : belongs '\r' = belongs '\n') (text : List Char) :
    (withReturns text).takeWhile belongs = withReturns (text.takeWhile belongs) := by
  induction text with
  | nil => rfl
  | cons character rest ih =>
      by_cases feed : character = '\n'
      · rw [feed, with_returns_feed, List.takeWhile_cons, List.takeWhile_cons, List.takeWhile_cons, ih,
          alike]
        cases belongs '\n' <;> rfl
      · rw [with_returns_cons feed, List.takeWhile_cons, List.takeWhile_cons, ih]
        split
        · rw [with_returns_cons feed]
        · rfl

theorem drop_while_with_returns (alike : belongs '\r' = belongs '\n') (text : List Char) :
    (withReturns text).dropWhile belongs = withReturns (text.dropWhile belongs) := by
  induction text with
  | nil => rfl
  | cons character rest ih =>
      by_cases feed : character = '\n'
      · rw [feed, with_returns_feed, List.dropWhile_cons, List.dropWhile_cons, List.dropWhile_cons, ih,
          alike]
        cases belongs '\n' <;> rfl
      · rw [with_returns_cons feed, List.dropWhile_cons, List.dropWhile_cons, ih]
        split
        · rfl
        · rw [with_returns_cons feed]

theorem run_with_returns (noReturn : belongs '\r' = false) (noFeed : belongs '\n' = false)
    (text : List Char) : (withReturns text).takeWhile belongs = text.takeWhile belongs := by
  rw [take_while_with_returns (noReturn.trans noFeed.symm)]
  apply with_returns_of_no_feed
  intro member
  rw [List.mem_takeWhile_imp member] at noFeed
  exact absurd noFeed (by simp)

theorem take_run_with_returns (noReturn : belongs '\r' = false) (noFeed : belongs '\n' = false)
    (count : Nat) (text : List Char) :
    ((withReturns text).take count).takeWhile belongs = (text.take count).takeWhile belongs := by
  induction count generalizing text with
  | zero => rfl
  | succ count ih =>
      cases text with
      | nil => rfl
      | cons character rest =>
          by_cases feed : character = '\n'
          · rw [feed, with_returns_feed, List.take_succ_cons, List.take_succ_cons, List.takeWhile_cons,
              List.takeWhile_cons, noReturn, noFeed]
            rfl
          · rw [with_returns_cons feed, List.take_succ_cons, List.take_succ_cons, List.takeWhile_cons,
              List.takeWhile_cons, ih]

theorem grown_take_run (noFeed : belongs '\n' = false) (count : Nat) (text : List Char) :
    grown text ((text.take count).takeWhile belongs).length =
      ((text.take count).takeWhile belongs).length := by
  obtain ⟨rest, same⟩ : (text.take count).takeWhile belongs <+: text :=
    (List.takeWhile_prefix _).trans (List.take_prefix count text)
  have run := @grown_run ((text.take count).takeWhile belongs) (fun member => by
    rw [List.mem_takeWhile_imp member] at noFeed
    exact absurd noFeed (by simp)) rest
  rwa [same] at run

theorem grown_take_while (noFeed : belongs '\n' = false) (text : List Char) :
    grown text (text.takeWhile belongs).length = (text.takeWhile belongs).length := by
  have run := @grown_run (text.takeWhile belongs) (fun member => by
    rw [List.mem_takeWhile_imp member] at noFeed
    exact absurd noFeed (by simp)) (text.dropWhile belongs)
  rwa [List.takeWhile_append_dropWhile] at run

theorem drop_run_with_returns (noFeed : belongs '\n' = false) (text : List Char) :
    (withReturns text).drop (text.takeWhile belongs).length =
      withReturns (text.drop (text.takeWhile belongs).length) := by
  have dropped := drop_with_returns text (text.takeWhile belongs).length
  rwa [grown_take_while noFeed] at dropped

end

theorem prefix_with_returns {start : List Char} (onLine : OnLine start) (text : List Char) :
    start.isPrefixOf (withReturns text) = start.isPrefixOf text := by
  induction start generalizing text with
  | nil => rfl
  | cons first start ih =>
      have later : OnLine start :=
        ⟨fun member => onLine.1 (.tail _ member), fun member => onLine.2 (.tail _ member)⟩
      cases text with
      | nil => rfl
      | cons character rest =>
          by_cases feed : character = '\n'
          · have noReturn : first ≠ '\r' := fun same => onLine.2 (same ▸ .head _)
            have noFeed : first ≠ '\n' := fun same => onLine.1 (same ▸ .head _)
            rw [feed, with_returns_feed, List.isPrefixOf, List.isPrefixOf, beq_eq_false_iff_ne.mpr noReturn,
              beq_eq_false_iff_ne.mpr noFeed]
            rfl
          · rw [with_returns_cons feed, List.isPrefixOf, List.isPrefixOf, ih later]

theorem suffix_with_returns {ending : List Char} (onLine : OnLine ending) (text : List Char) :
    ending <:+ withReturns text ↔ ending <:+ text := by
  constructor
  · intro isSuffix
    induction text using List.reverseRecOn generalizing ending with
    | nil => exact isSuffix
    | append_singleton text last ih =>
        rcases List.eq_nil_or_concat ending with rfl | ⟨front, character, rfl⟩
        · exact List.nil_suffix
        have noFeed : character ≠ '\n' := fun same => onLine.1 (by simp [same])
        have before : OnLine front :=
          ⟨fun member => onLine.1 (by simp [member]), fun member => onLine.2 (by simp [member])⟩
        obtain ⟨more, same⟩ := isSuffix
        rw [List.concat_eq_append] at same ⊢
        rw [with_returns_append, ← List.append_assoc] at same
        by_cases feed : last = '\n'
        · have ends := congrArg List.getLast? same
          rw [feed, with_returns_feed] at ends
          simp [withReturns, noFeed] at ends
        · rw [with_returns_cons feed] at same
          obtain ⟨whole, isLast⟩ := List.append_inj' same rfl
          obtain ⟨behind, rfl⟩ := ih before ⟨more, whole⟩
          exact ⟨behind, by rw [← List.append_assoc, isLast]; rfl⟩
  · rintro ⟨before, rfl⟩
    rw [with_returns_append, with_returns_of_no_feed onLine.1]
    exact List.suffix_append _ _

/-! ## Trimming -/

theorem trim_end_with_returns (text : List Char) :
    trimEnd (withReturns text) = withReturns (trimEnd text) := by
  induction text using List.reverseRecOn with
  | nil => rfl
  | append_singleton text last ih =>
      by_cases blank : isBlank last = true
      · have kept : trimEnd (text ++ [last]) = trimEnd text := by simp [trimEnd, blank]
        rw [kept, ← ih, with_returns_append]
        by_cases feed : last = '\n'
        · simp [feed, trimEnd, withReturns, withReturn, isBlank]
        · rw [with_returns_cons feed]
          simp [trimEnd, blank, withReturns]
      · have noFeed : last ≠ '\n' := by
          rintro rfl
          exact blank rfl
        have notBlank : isBlank last = false := by simpa using blank
        rw [with_returns_append, with_returns_cons noFeed, trim_end_concat notBlank]
        rw [with_returns_append, with_returns_cons noFeed]
        exact trim_end_concat notBlank _

theorem trim_with_returns (text : List Char) : trim (withReturns text) = withReturns (trim text) := by
  rw [trim, trimStart, drop_while_with_returns (by decide), trim_end_with_returns]
  rfl

/-! ## Lines -/

/-- A text with carriage returns in front of some of its line feeds. -/
inductive Returned : List Char → List Char → Prop
  | nil : Returned [] []
  | same {text other : List Char} (character : Char) (rest : Returned text other) :
      Returned (character :: text) (character :: other)
  | feed {text other : List Char} (rest : Returned text other) :
      Returned ('\n' :: text) ('\r' :: '\n' :: other)

theorem returned_with_returns (text : List Char) : Returned text (withReturns text) := by
  induction text with
  | nil => exact .nil
  | cons character rest ih =>
      by_cases feed : character = '\n'
      · rw [feed]
        exact .feed ih
      · rw [with_returns_cons feed]
        exact .same character ih

theorem returned_same (text : List Char) : Returned text text := by
  induction text with
  | nil => exact .nil
  | cons character rest ih => exact .same character ih

theorem returned_append {left right leftOther rightOther : List Char}
    (before : Returned left leftOther) (after : Returned right rightOther) :
    Returned (left ++ right) (leftOther ++ rightOther) := by
  induction before with
  | nil => exact after
  | same character _ ih => exact .same character ih
  | feed _ ih => exact .feed ih

/-- Whether pieces are the same but for returns at the ends of all but the last. -/
inductive SamePieces : List (List Char) → List (List Char) → Prop
  | last (piece : List Char) : SamePieces [piece] [piece]
  | cons {piece other : List Char} {pieces others : List (List Char)}
      (same : dropReturn piece = dropReturn other) (rest : SamePieces pieces others) :
      SamePieces (piece :: pieces) (other :: others)

theorem drop_return_cons_cons (character next : Char) (rest : List Char) :
    dropReturn (character :: next :: rest) = character :: dropReturn (next :: rest) := by
  simp only [dropReturn, List.getLast?_cons_cons]
  split <;> rfl

theorem drop_return_cons (noReturn : character ≠ '\r') (rest : List Char) :
    dropReturn (character :: rest) = character :: dropReturn rest := by
  cases rest with
  | nil => simp [dropReturn, noReturn]
  | cons next rest => exact drop_return_cons_cons character next rest

def NoReturnedLine (text : List Char) : Prop := occurs ['\r', '\n'] text = false

instance (text : List Char) : Decidable (NoReturnedLine text) :=
  inferInstanceAs (Decidable (occurs ['\r', '\n'] text = false))

theorem no_returned_line_cons {rest : List Char} :
    NoReturnedLine (character :: rest) ↔
      ¬(character = '\r' ∧ rest.head? = some '\n') ∧ NoReturnedLine rest := by
  unfold NoReturnedLine
  rw [occurs, Bool.or_eq_false_iff]
  refine and_congr_left fun _ => ?_
  cases rest with
  | nil => simp [List.isPrefixOf]
  | cons next rest =>
      have starts : ['\r', '\n'].isPrefixOf (character :: next :: rest) =
          ('\r' == character && ('\n' == next && true)) := rfl
      rw [starts, Bool.and_true, ← Bool.not_eq_true, Bool.and_eq_true, beq_iff_eq, beq_iff_eq,
        List.head?_cons, Option.some_inj, eq_comm, @eq_comm _ '\n']

theorem split_line {character : Char} (notFeed : character ≠ '\n') (rest : List Char) :
    ∃ piece pieces, splitWhere (· == '\n') (character :: rest) = (character :: piece) :: pieces := by
  simp only [splitWhere, beq_iff_eq, notFeed, if_false]
  cases splitWhere (· == '\n') rest with
  | nil => exact ⟨[], [], rfl⟩
  | cons piece pieces => exact ⟨piece, pieces, rfl⟩

theorem same_pieces_of_returned {text other : List Char} (returned : Returned text other)
    (noReturned : NoReturnedLine text) :
    SamePieces (splitWhere (· == '\n') text) (splitWhere (· == '\n') other) := by
  induction returned with
  | nil => exact .last []
  | @same text other character rest ih =>
      obtain ⟨here, behind⟩ := no_returned_line_cons.mp noReturned
      have later := ih behind
      by_cases feed : character = '\n'
      · simp only [splitWhere, feed, beq_self_eq_true, if_true]
        exact .cons rfl later
      simp only [splitWhere, beq_iff_eq, feed, if_false]
      by_cases isReturn : character = '\r'
      · have notFeed : text.head? ≠ some '\n' := fun isFeed => here ⟨isReturn, isFeed⟩
        cases rest with
        | nil => exact .last _
        | feed rest => simp at notFeed
        | @same text other next rest =>
            have nextFeed : next ≠ '\n' := by simpa using notFeed
            obtain ⟨piece, pieces, line⟩ := split_line nextFeed text
            obtain ⟨otherPiece, others, otherLine⟩ := split_line nextFeed other
            rw [line, otherLine] at later ⊢
            cases later with
            | last piece => exact .last _
            | cons same rest =>
                apply SamePieces.cons _ rest
                rw [drop_return_cons_cons, drop_return_cons_cons, same]
      · generalize splitWhere (· == '\n') text = pieces at later ⊢
        generalize splitWhere (· == '\n') other = others at later ⊢
        cases later with
        | last piece => exact .last _
        | cons same rest =>
            apply SamePieces.cons _ rest
            rw [drop_return_cons isReturn, drop_return_cons isReturn, same]
  | @feed text other rest ih => exact .cons rfl (ih (no_returned_line_cons.mp noReturned).2)

theorem same_lines {pieces others : List (List Char)} (same : SamePieces pieces others) :
    pieces.getLast? = others.getLast? ∧
      pieces.dropLast.map dropReturn = others.dropLast.map dropReturn := by
  induction same with
  | last piece => exact ⟨rfl, rfl⟩
  | @cons piece other pieces others same rest ih =>
      cases rest with
      | last piece => exact ⟨rfl, by simp [same]⟩
      | cons next more =>
          obtain ⟨last, before⟩ := ih
          refine ⟨?_, ?_⟩
          · rw [List.getLast?_cons_cons, List.getLast?_cons_cons, last]
          · rw [List.dropLast_cons_cons, List.dropLast_cons_cons, List.map_cons, List.map_cons, same,
              before]

/-- Returns in front of line feeds make no other lines. -/
theorem lines_of_returned {text other : List Char} (returned : Returned text other)
    (noReturned : NoReturnedLine text) : lines other = lines text := by
  obtain ⟨last, before⟩ := same_lines (same_pieces_of_returned returned noReturned)
  simp only [lines]
  rw [last, before]

end TaskCab.Text
