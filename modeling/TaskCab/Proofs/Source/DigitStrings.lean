import TaskCab.Proofs.Source.LiteralToken
import TaskCab.Proofs.Source.NumberTokens

/-!
# Strings of digits

A string literal of digits may be raw or marked as text, and its quotes may be single or triple ones of
either mark. It is taken whole by the scanner and stands for its digits.
-/

namespace TaskCab.Source

open TaskCab.Text

structure DigitString where
  flag : Option Char
  mark : Char
  triple : Bool
  digits : List (Fin 10)

namespace DigitString

def body (string : DigitString) : List Char := string.digits.map fun digit => Nat.digitChar digit.val

def quote (string : DigitString) : List Char :=
  string.mark :: if string.triple then [string.mark, string.mark] else []

def text (string : DigitString) : List Char :=
  string.flag.toList ++ (string.quote ++ (string.body ++ string.quote))

def number (string : DigitString) : Nat := string.digits.foldl (fun total digit => total * 10 + digit.val) 0

structure IsProper (string : DigitString) : Prop where
  flag : ∀ flag ∈ string.flag, flag ∈ "rRuU".toList
  mark : Quoted.IsQuote string.mark
  nonempty : string.digits ≠ []

variable {string : DigitString}

theorem body_digits (string : DigitString) : Numeral.IsDigits string.body := by
  have each : ∀ digit : Fin 10, (Nat.digitChar digit.val).isDigit = true := by decide
  exact List.forall_mem_map.mpr fun digit _ => each digit

theorem body_graphic (string : DigitString) : ∀ character ∈ string.body, IsGraphic character := by
  have each : ∀ digit : Fin 10, IsGraphic (Nat.digitChar digit.val) := by decide
  exact List.forall_mem_map.mpr fun digit _ => each digit

theorem read_body (string : DigitString) : Integer.readDigits? 10 0 string.body = some string.number := by
  have each : ∀ digit : Fin 10, Integer.digitValue? 10 (Nat.digitChar digit.val) = some digit.val := by decide
  have reads (start : Nat) : Integer.readDigits? 10 start string.body =
      some (string.digits.foldl (fun total digit => total * 10 + digit.val) start) := by
    unfold body
    generalize string.digits = digits
    induction digits generalizing start with
    | nil => rfl
    | cons digit rest ih =>
        rw [List.map_cons, Integer.readDigits?, each, List.foldl_cons, ← ih]
        rfl
  exact reads 0

theorem body_ne_nil (proper : string.IsProper) : string.body ≠ [] := by
  simpa [body] using proper.nonempty

theorem plain_of_digit {character : Char} (isDigit : character.isDigit = true) :
    character ≠ '\x00' ∧ character ≠ '\\' ∧ character ≠ '\n' ∧
      ∀ quote, Quoted.IsQuote quote → quote ≠ character := by
  have differs {other : Char} (notDigit : other.isDigit = false) : character ≠ other := by
    rintro rfl
    simp [notDigit] at isDigit
  refine ⟨differs rfl, differs rfl, differs rfl, ?_⟩
  rintro quote (rfl | rfl)
  · exact (differs rfl).symm
  · exact (differs rfl).symm

/-! ## Scanning -/

def style (string : DigitString) : Quoted.Style :=
  ⟨(string.flag.toList.map Char.toLower).contains 'r', false, false, string.mark, string.triple⟩

theorem closing_style (string : DigitString) : Quoted.closing string.style = string.quote := by
  unfold Quoted.closing quote style
  dsimp only
  split <;> rfl

theorem flags (proper : string.IsProper) :
    (∀ flag ∈ string.flag.toList, Quoted.isFlag flag = true) ∧
      ∀ flag ∈ string.flag.toList, flag.toLower = 'r' ∨ flag.toLower = 'u' := by
  have each : ∀ flag ∈ "rRuU".toList,
      Quoted.isFlag flag = true ∧ (flag.toLower = 'r' ∨ flag.toLower = 'u') := by decide
  exact ⟨fun flag member => (each flag (proper.flag flag (Option.mem_toList.mp member))).1,
    fun flag member => (each flag (proper.flag flag (Option.mem_toList.mp member))).2⟩

theorem body_of_digits (proper : string.IsProper) {digits : List Char} (areDigits : Numeral.IsDigits digits)
    (plain : Bool) : Quoted.Body string.style plain (digits ++ string.quote) := by
  induction digits generalizing plain with
  | nil =>
      rw [← closing_style]
      exact .close
  | cons digit rest ih =>
      obtain ⟨isDigit, restDigits⟩ := List.forall_mem_cons.mp areDigits
      obtain ⟨notNull, notBackslash, notFeed, notQuote⟩ := plain_of_digit isDigit
      have notClosing : Quoted.closes string.style (digit :: (rest ++ string.quote)) = false := by
        rw [Quoted.closes_eq, closing_style, quote, List.isPrefixOf]
        simp [notQuote string.mark proper.mark]
      exact .plain notNull notBackslash notClosing (fun ends => notFeed ends.1) (ih restDigits true)

theorem body_start (proper : string.IsProper) :
    ∃ digit rest, string.body = digit :: rest ∧ string.mark ≠ digit := by
  obtain ⟨digit, rest, whole⟩ := List.exists_cons_of_ne_nil (body_ne_nil proper)
  have isDigit := string.body_digits digit (by rw [whole]; exact .head _)
  exact ⟨digit, rest, whole, (plain_of_digit isDigit).2.2.2 string.mark proper.mark⟩

theorem is_mark (proper : string.IsProper) : Quoted.isMark string.mark = true := by
  rcases proper.mark with same | same <;> rw [same] <;> rfl

theorem opening_text (proper : string.IsProper) (after : List Char) :
    Quoted.opening? (string.text ++ after) =
      some (string.style, string.flag.toList.length + string.quote.length) := by
  have isMark := is_mark proper
  have areFlags := (flags proper).1
  have shape : string.text ++ after = string.flag.toList ++ string.mark ::
      ((if string.triple then [string.mark, string.mark] else []) ++
        (string.body ++ (string.quote ++ after))) := by
    simp [text, quote]
  have run (rest : List Char) : (string.flag.toList ++ string.mark :: rest).takeWhile Quoted.isFlag =
      string.flag.toList :=
    take_while_run areFlags (stops_cons.mpr (Quoted.not_flag_of_mark isMark))
  have triple : (decide (string.mark ≠ '`') && [string.mark, string.mark].isPrefixOf
      ((if string.triple then [string.mark, string.mark] else []) ++
        (string.body ++ (string.quote ++ after)))) = string.triple := by
    have notBack : string.mark ≠ '`' := by
      rcases proper.mark with same | same <;> rw [same] <;> decide
    obtain ⟨digit, rest, whole, notMark⟩ := body_start proper
    cases string.triple with
    | true => simp [notBack, List.isPrefixOf]
    | false => simp [notBack, List.isPrefixOf, whole, notMark]
  have unmarked : ∀ letter ∈ ['b', 'f'], (string.flag.toList.map Char.toLower).contains letter = false := by
    intro letter isLetter
    refine Bool.eq_false_iff.mpr fun found => ?_
    obtain ⟨flag, member, lowered⟩ := List.mem_map.mp (List.contains_iff_mem.mp found)
    rcases (flags proper).2 flag member with same | same <;>
      rw [lowered] at same <;> rw [same] at isLetter <;> exact absurd isLetter (by decide)
  rw [shape]
  simp only [Quoted.opening?, run, List.drop_left, isMark, if_true, triple, unmarked 'b' (by decide),
    unmarked 'f' (by decide)]
  rw [style, quote]
  cases string.triple <;> rfl

theorem length_text (proper : string.IsProper) (after : List Char) :
    Quoted.length? (string.text ++ after) = some string.text.length := by
  have isBody := body_of_digits proper string.body_digits false
  have behind : (string.text ++ after).drop (string.flag.toList.length + string.quote.length) =
      (string.body ++ string.quote) ++ after := by
    rw [text, ← List.append_assoc, List.append_assoc, ← List.length_append, List.drop_left]
  have closing := Quoted.closing_from_body isBody proper.mark after
  rw [Quoted.length_of_opening (opening_text proper after), behind, closing]
  simp [style, text, Nat.add_assoc]

theorem starts (proper : string.IsProper) (after : List Char) :
    Lexeme.Starts ⟨.string, string.text⟩ after := by
  have opens := opening_text proper after
  have closes := length_text proper after
  have visible : ∃ first rest, string.text = first :: rest ∧ Lexeme.IsVisible first := by
    have areFlags := (flags proper).1
    unfold text quote
    cases same : string.flag with
    | none => exact ⟨string.mark, _, rfl, Quoted.visible_of_mark (is_mark proper)⟩
    | some flag =>
        rw [same] at areFlags
        exact ⟨flag, _, rfl, Quoted.visible_of_flag (areFlags flag (.head _))⟩
  obtain ⟨first, rest, whole, isVisible⟩ := visible
  rw [whole, List.cons_append] at opens closes
  refine ⟨first, rest, whole, ?_⟩
  rw [Lexeme.first_visible isVisible, opens]
  dsimp only
  rw [closes, whole]

/-! ## Meaning -/

theorem unescape_digits {digits : List Char} (areDigits : Numeral.IsDigits digits) :
    Quoted.unescape digits = digits := by
  unfold Quoted.unescape
  induction digits with
  | nil => rfl
  | cons digit rest ih =>
      obtain ⟨isDigit, restDigits⟩ := List.forall_mem_cons.mp areDigits
      rw [Quoted.unescapeFrom, if_neg (plain_of_digit isDigit).2.1, ih restDigits]

theorem last_graphic (proper : string.IsProper) : ∃ last ∈ string.text.getLast?, IsGraphic last := by
  have graphic : IsGraphic string.mark := by
    rcases proper.mark with same | same <;> rw [same] <;> decide
  have last : string.quote.getLast? = some string.mark := by
    unfold quote
    cases string.triple <;> rfl
  refine ⟨string.mark, ?_, graphic⟩
  rw [text, List.getLast?_append, List.getLast?_append, List.getLast?_append, last]
  rfl

theorem quote_eq (string : DigitString) : string.quote = Quoted.quotation string.mark string.triple := by
  unfold quote Quoted.quotation
  split <;> rfl

theorem text_text (proper : string.IsProper) : Quoted.text? string.text = some string.body := by
  have areFlags : ∀ flag ∈ string.flag.toList, flag ∈ "rRuU".toList := by
    intro flag member
    exact proper.flag flag (Option.mem_toList.mp member)
  have starts : string.triple = false → string.body.head? ≠ some string.mark := by
    obtain ⟨digit, rest, whole, notMark⟩ := body_start proper
    rw [whole]
    intro _ isHead
    exact notMark (Option.some.inj isHead).symm
  rw [text, quote_eq, Quoted.text_of_quoted areFlags proper.mark string.triple starts,
    unescape_digits string.body_digits, ite_self]

end DigitString

end TaskCab.Source
