import TaskCab.Proofs.Source.CompactLexemes

/-!
# Tokens of compact text

The tokens of an expression are found again in its compact text, but for commas dropped in front of a
closing bracket. Where the backslash of a joined line stays behind, or a character that hides a string,
a token is stray instead.
-/

namespace TaskCab.Source.Compact

open Lexeme

/-- Two runs of tokens that differ by commas dropped in front of closing square or curly brackets. -/
inductive Tidied : List Lexeme → List Lexeme → Prop
  | nil : Tidied [] []
  | keep {lexeme : Lexeme} {left right : List Lexeme} (rest : Tidied left right) :
      Tidied (lexeme :: left) (lexeme :: right)
  | drop {closer : Lexeme} {left right : List Lexeme} (closes : role closer = .closing)
      (rest : Tidied (closer :: left) right) : Tidied (commaLexeme :: closer :: left) right

theorem tidied_append {front left right : List Lexeme} (tidied : Tidied left right) :
    Tidied (front ++ left) (front ++ right) := by
  induction front with
  | nil => exact tidied
  | cons lexeme front ih => exact .keep ih

def words (lexemes : List Lexeme) : List Lexeme := lexemes.filter fun lexeme => lexeme.kind.isToken

/-- Whether no backslash and no hidden string comes out of the compaction of lexemes. The flag says that
a character has been kept since the last token. -/
def unbroken : Bool → List Lexeme → Bool
  | _, [] => true
  | hidden, lexeme :: rest =>
      if role lexeme = .joined then false
      else if role lexeme = .space then unbroken hidden rest
      else if lexeme.kind = .unseen then unbroken true rest
      else if lexeme.kind = .string then !hidden && unbroken false rest
      else unbroken false rest

/-- Whether two flags agree, one of the tokens that are written and one of those that are read: while a
comma is held back only the second is cleared by it. -/
def Agree (state : State) (written read : Bool) : Prop :=
  if state.behind = .comma then read = false else written = read

theorem heard_pending {state : State} {written read : Bool} (agree : Agree state written read) :
    heard written (pending state) = pending state ∧ hides written (pending state) = read := by
  obtain ⟨behind, spaced⟩ := state
  cases behind with
  | comma =>
      obtain rfl : read = false := agree
      exact ⟨rfl, rfl⟩
  | opening | other =>
      obtain rfl : written = read := agree
      exact ⟨rfl, rfl⟩

theorem heard_gap {state : State} {written read : Bool} (agree : Agree state written read) :
    heard written (gap state) = pending state ∧ hides written (gap state) = read := by
  obtain ⟨behind, spaced⟩ := state
  cases behind with
  | comma =>
      obtain rfl : read = false := agree
      exact ⟨rfl, rfl⟩
  | opening | other =>
      obtain rfl : written = read := agree
      cases spaced <;> exact ⟨rfl, rfl⟩

theorem agree_other {spaced flag : Bool} : Agree ⟨.other, spaced⟩ flag flag := rfl

theorem heard_token {lexeme : Lexeme} {hidden : Bool} (isToken : lexeme.kind.isToken = true)
    (shown : lexeme.kind = .string → hidden = false) :
    heard hidden [lexeme] = [lexeme] ∧ hides hidden [lexeme] = false := by
  cases kind : lexeme.kind with
  | string => simp [heard, hides, kind, shown kind]
  | word | integer | float | symbol => simp [heard, hides, kind]
  | blank | newline | comment | joinedLine | unseen | stray => simp [kind, LexemeKind.isToken] at isToken

theorem hides_append (hidden : Bool) (left right : List Lexeme) :
    hides hidden (left ++ right) = hides (hides hidden left) right := by
  induction left generalizing hidden with
  | nil => rfl
  | cons lexeme rest ih =>
      rw [List.cons_append]
      cases kind : lexeme.kind <;> simp [hides, kind, ih]

def compacted (state : State) (lexemes : List Lexeme) : List Lexeme :=
  tidy state lexemes ++ pending (arrive state lexemes)

theorem compacted_cons (state : State) (lexeme : Lexeme) (rest : List Lexeme) :
    compacted state (lexeme :: rest) = emitted state lexeme ++ compacted (advance state lexeme) rest := by
  rw [compacted, tidy, List.append_assoc]
  rfl

theorem words_token {lexeme : Lexeme} (isToken : lexeme.kind.isToken = true) (rest : List Lexeme) :
    words (lexeme :: rest) = lexeme :: words rest := by
  simp [words, isToken]

theorem words_gap {lexeme : Lexeme} (notToken : lexeme.kind.isToken = false) (rest : List Lexeme) :
    words (lexeme :: rest) = words rest := by
  simp [words, notToken]

theorem not_token_of_gap {kind : LexemeKind} (isGap : kind.isGap = true) : kind.isToken = false := by
  cases kind <;> simp_all [LexemeKind.isGap, LexemeKind.isToken]

/-- The lexemes that make a token, beside those that make none. -/
theorem token_of_role {lexeme : Lexeme} (known : lexeme.kind ≠ .stray) (unspaced : role lexeme ≠ .space)
    (unjoined : role lexeme ≠ .joined) (seen : lexeme.kind ≠ .unseen) : lexeme.kind.isToken = true := by
  cases kind : lexeme.kind with
  | blank | newline | comment => simp [role, kind] at unspaced
  | joinedLine => simp [role, kind] at unjoined
  | unseen => exact absurd kind seen
  | stray => exact absurd kind known
  | word | integer | float | string | symbol => rfl

theorem unbroken_token {hidden : Bool} {lexeme : Lexeme} {rest : List Lexeme}
    (unspaced : role lexeme ≠ .space) (unjoined : role lexeme ≠ .joined)
    (seen : lexeme.kind ≠ .unseen) (whole : unbroken hidden (lexeme :: rest) = true) :
    (lexeme.kind = .string → hidden = false) ∧ unbroken false rest = true := by
  rw [unbroken, if_neg unjoined, if_neg unspaced, if_neg seen] at whole
  split at whole
  · have both : hidden = false ∧ unbroken false rest = true := by simpa using whole
    exact ⟨fun _ => both.1, both.2⟩
  next noString => exact ⟨fun string => absurd string noString, whole⟩

theorem broken_token {hidden : Bool} {lexeme : Lexeme} {rest : List Lexeme}
    (unspaced : role lexeme ≠ .space) (unjoined : role lexeme ≠ .joined)
    (seen : lexeme.kind ≠ .unseen) (broken : unbroken hidden (lexeme :: rest) = false) :
    (lexeme.kind = .string ∧ hidden = true) ∨ unbroken false rest = false := by
  rw [unbroken, if_neg unjoined, if_neg unspaced, if_neg seen] at broken
  split at broken
  next string =>
    cases hidden with
    | true => exact .inl ⟨string, rfl⟩
    | false => exact .inr (by simpa using broken)
  next => exact .inr broken

theorem tidied_token {lexeme : Lexeme} {state : State} {front left right : List Lexeme}
    {written read : Bool} (isToken : lexeme.kind.isToken = true)
    (shown : lexeme.kind = .string → read = false)
    (isHeard : heard written front = pending state ∧ hides written front = read)
    (tidied : Tidied left (heard false right)) :
    Tidied (pending state ++ lexeme :: left) (heard written ((front ++ [lexeme]) ++ right)) := by
  obtain ⟨itself, cleared⟩ := heard_token isToken shown
  rw [heard_append, heard_append, hides_append, isHeard.1, isHeard.2, itself, cleared, List.append_assoc]
  exact tidied_append (.keep tidied)

/-- Unbroken lexemes are heard again, but for commas that are dropped. -/
theorem tidied_of_unbroken {lexemes : List Lexeme} {tail : List Char} (sound : AllSound lexemes tail)
    {state : State} {written read : Bool} (agree : Agree state written read)
    (whole : unbroken read lexemes = true) :
    Tidied (pending state ++ words lexemes) (heard written (compacted state lexemes)) := by
  induction lexemes generalizing state written read with
  | nil =>
      change Tidied (pending state ++ []) (heard written (pending state))
      rw [(heard_pending agree).1]
      simpa using @tidied_append (pending state) [] [] .nil
  | cons lexeme rest ih =>
      have later := @ih sound.2
      have emits := emits state lexeme
      rw [compacted_cons]
      generalize emitted state lexeme = front, advance state lexeme = next at emits ⊢
      cases emits with
      | space isRole isGap =>
          rw [unbroken, if_neg (by simp [isRole]), if_pos isRole] at whole
          rw [words_gap (not_token_of_gap isGap)]
          exact @later ⟨state.behind, true⟩ written read agree whole
      | joined isRole =>
          rw [unbroken, if_pos isRole] at whole
          simp at whole
      | comma isRole isComma =>
          subst isComma
          have tidied := @later ⟨.comma, false⟩ read false rfl
            (unbroken_token (by decide) (by decide) (by decide) whole).2
          rw [heard_append, (heard_pending agree).1, (heard_pending agree).2, words_token rfl]
          exact tidied_append tidied
      | closing isRole isSymbol =>
          have isToken : lexeme.kind.isToken = true := by rw [isSymbol]; rfl
          have wholeRest := (unbroken_token (by simp [isRole]) (by simp [isRole]) (by simp [isSymbol])
            whole).2
          obtain ⟨itself, cleared⟩ := @heard_token lexeme written isToken (by simp [isSymbol])
          have tidied := @later ⟨.other, false⟩ false false agree_other wholeRest
          rw [heard_append, itself, cleared, words_token isToken]
          obtain ⟨behind, spaced⟩ := state
          cases behind with
          | comma => exact .drop isRole (.keep tidied)
          | opening | other => exact .keep tidied
      | behind isRole isSymbol =>
          have unspaced : role lexeme ≠ .space := by rcases isRole with isRole | isRole <;> simp [isRole]
          have unjoined : role lexeme ≠ .joined := by rcases isRole with isRole | isRole <;> simp [isRole]
          have isToken : lexeme.kind.isToken = true := by rw [isSymbol]; rfl
          obtain ⟨shown, wholeRest⟩ := unbroken_token unspaced unjoined (by simp [isSymbol]) whole
          rw [words_token isToken]
          exact tidied_token isToken shown (heard_pending agree) (later agree_other wholeRest)
      | opening isRole isSymbol =>
          have isToken : lexeme.kind.isToken = true := by rw [isSymbol]; rfl
          obtain ⟨shown, wholeRest⟩ :=
            unbroken_token (by simp [isRole]) (by simp [isRole]) (by simp [isSymbol]) whole
          rw [words_token isToken]
          exact tidied_token isToken shown (heard_gap agree)
            (@later ⟨.opening, false⟩ false false rfl wholeRest)
      | ordinary isRole =>
          by_cases unseen : lexeme.kind = .unseen
          · rw [unbroken, if_neg (by simp [isRole]), if_neg (by simp [isRole]), if_pos unseen] at whole
            have itself : heard read [lexeme] = [] ∧ hides read [lexeme] = true := by
              simp [heard, hides, unseen]
            have tidied := @later ⟨.other, false⟩ true true agree_other whole
            rw [heard_append, heard_append, hides_append, (heard_gap agree).1, (heard_gap agree).2,
              itself.1, itself.2, words_gap (by rw [unseen]; rfl), List.append_nil]
            exact tidied_append tidied
          · have isToken := token_of_role sound.1.known (by simp [isRole]) (by simp [isRole]) unseen
            obtain ⟨shown, wholeRest⟩ := unbroken_token (by simp [isRole]) (by simp [isRole]) unseen whole
            rw [words_token isToken]
            exact tidied_token isToken shown (heard_gap agree) (later agree_other wholeRest)

def HeardStray (written : Bool) (lexemes : List Lexeme) : Prop :=
  ∃ lexeme ∈ heard written lexemes, lexeme.kind = .stray

theorem heard_stray_append {written between : Bool} {front rest : List Lexeme}
    (hidesAll : hides written front = between) (stray : HeardStray between rest) :
    HeardStray written (front ++ rest) := by
  obtain ⟨lexeme, member, isStray⟩ := stray
  rw [HeardStray, heard_append, hidesAll]
  exact ⟨lexeme, List.mem_append_right _ member, isStray⟩

/-- A string behind a character that has been kept is stray, and any other token hides nothing. -/
theorem heard_stray_token {lexeme : Lexeme} {front rest : List Lexeme} {written read : Bool}
    (unspaced : role lexeme ≠ .space) (seen : lexeme.kind ≠ .unseen)
    (isHidden : hides written front = read)
    (broken : (lexeme.kind = .string ∧ read = true) ∨ HeardStray false rest) :
    HeardStray written ((front ++ [lexeme]) ++ rest) := by
  rcases broken with ⟨string, hidden⟩ | stray
  · refine ⟨⟨.stray, []⟩, ?_, rfl⟩
    rw [heard_append, heard_append, isHidden, hidden]
    simp [heard, string]
  · refine heard_stray_append ?_ stray
    rw [hides_append]
    cases kind : lexeme.kind with
    | blank => simp [role, kind] at unspaced
    | unseen => exact absurd kind seen
    | newline | comment | joinedLine | word | integer | float | string | symbol | stray =>
        simp [hides, kind]

/-- Broken lexemes leave a stray token. -/
theorem stray_of_broken {lexemes : List Lexeme} {state : State} {written read : Bool}
    (agree : Agree state written read) (broken : unbroken read lexemes = false) :
    HeardStray written (tidy state lexemes) := by
  induction lexemes generalizing state written read with
  | nil => simp [unbroken] at broken
  | cons lexeme rest ih =>
      have emits := emits state lexeme
      rw [tidy]
      generalize emitted state lexeme = front, advance state lexeme = next at emits ⊢
      cases emits with
      | space isRole =>
          rw [unbroken, if_neg (by simp [isRole]), if_pos isRole] at broken
          exact heard_stray_append rfl (@ih ⟨state.behind, true⟩ written read agree broken)
      | joined =>
          refine ⟨backslashLexeme, ?_, rfl⟩
          rw [heard_append, heard_append]
          exact List.mem_append_left _ (List.mem_append_right _ (.head _))
      | comma isRole isComma =>
          subst isComma
          rcases broken_token (by decide) (by decide) (by decide) broken with ⟨string, -⟩ | brokenRest
          · simp [commaLexeme] at string
          · exact heard_stray_append (heard_pending agree).2 (@ih ⟨.comma, false⟩ read false rfl brokenRest)
      | closing isRole isSymbol =>
          refine @heard_stray_token lexeme [] _ written written (by simp [isRole]) (by simp [isSymbol]) rfl ?_
          have cases := broken_token (by simp [isRole]) (by simp [isRole]) (by simp [isSymbol]) broken
          exact .inr (ih agree_other (cases.resolve_left (by simp [isSymbol])))
      | behind isRole isSymbol =>
          have unspaced : role lexeme ≠ .space := by rcases isRole with isRole | isRole <;> simp [isRole]
          have unjoined : role lexeme ≠ .joined := by rcases isRole with isRole | isRole <;> simp [isRole]
          exact heard_stray_token unspaced (by simp [isSymbol]) (heard_pending agree).2
            ((broken_token unspaced unjoined (by simp [isSymbol]) broken).imp_right (ih agree_other))
      | opening isRole isSymbol =>
          exact heard_stray_token (by simp [isRole]) (by simp [isSymbol]) (heard_gap agree).2
            ((broken_token (by simp [isRole]) (by simp [isRole]) (by simp [isSymbol]) broken).imp_right
              (@ih ⟨.opening, false⟩ false false rfl))
      | ordinary isRole =>
          by_cases unseen : lexeme.kind = .unseen
          · rw [unbroken, if_neg (by simp [isRole]), if_neg (by simp [isRole]), if_pos unseen] at broken
            refine heard_stray_append ?_ (@ih ⟨.other, false⟩ true true agree_other broken)
            rw [hides_append]
            simp [hides, unseen]
          · exact heard_stray_token (by simp [isRole]) unseen (heard_gap agree).2
              ((broken_token (by simp [isRole]) (by simp [isRole]) unseen broken).imp_right (ih agree_other))

end TaskCab.Source.Compact
