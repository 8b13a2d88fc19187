import TaskCab.Text.Lowercase

/-!
# Lower-casing the start of a text

The lower-case form of a text begins with that of its start, unless the start ends in a sigma whose word
goes on behind it. Such a sigma has its final form in the start alone.
-/

namespace TaskCab.Text

/-- Lower-cases a text between two others, of which the one before is given from its end. -/
def lowerBetween : List Char → List Char → List Char → List Char
  | _, [], _ => []
  | before, character :: rest, after =>
      (if character = 'Σ' then [sigma before (rest ++ after)] else lowerChar character) ++
        lowerBetween (character :: before) rest after

theorem lower_after_append (before start after : List Char) :
    lowerAfter before (start ++ after) =
      lowerBetween before start after ++ lowerAfter (start.reverse ++ before) after := by
  induction start generalizing before with
  | nil => rfl
  | cons character rest ih => simp [lowerAfter, lowerBetween, ih]

theorem length_lower_between (before start after : List Char) :
    (lowerBetween before start after).length = (lowerAfter before start).length := by
  induction start generalizing before with
  | nil => rfl
  | cons character rest ih =>
      rw [lowerBetween, lowerAfter, List.length_append, List.length_append, ih]
      split <;> rfl

theorem meets_cased_append (start after : List Char) :
    meetsCased (start ++ after) =
      if start.all isCaseIgnorable then meetsCased after else meetsCased start := by
  unfold meetsCased
  induction start with
  | nil => rfl
  | cons character rest ih =>
      cases ignorable : isCaseIgnorable character with
      | true => simpa [ignorable] using ih
      | false => simp [ignorable]

theorem not_meets_cased_of_ignorable {text : List Char} (ignorable : text.all isCaseIgnorable = true) :
    meetsCased text = false := by
  have appended := meets_cased_append text []
  rwa [List.append_nil, if_pos ignorable] at appended

/-- Whether a text that follows `before` ends in a sigma behind a word, with nothing behind it but what
is looked through, and the word goes on in `after`. -/
def CutsSigma (before start after : List Char) : Prop :=
  ∃ front skipped, start = front ++ 'Σ' :: skipped ∧ skipped.all isCaseIgnorable = true ∧
    meetsCased (front.reverse ++ before) = true ∧ meetsCased after = true

theorem cuts_sigma_cons (before : List Char) (character : Char) (rest after : List Char) :
    CutsSigma before (character :: rest) after ↔
      (character = 'Σ' ∧ rest.all isCaseIgnorable = true ∧ meetsCased before = true ∧
        meetsCased after = true) ∨ CutsSigma (character :: before) rest after := by
  constructor
  · intro cuts
    obtain ⟨front, skipped, split, ignorable, behind, ahead⟩ := cuts
    cases front with
    | nil =>
        obtain ⟨rfl, rfl⟩ := List.cons.inj split
        exact .inl ⟨rfl, ignorable, behind, ahead⟩
    | cons first more =>
        obtain ⟨rfl, rfl⟩ := List.cons.inj split
        exact .inr ⟨more, skipped, rfl, ignorable, by simpa using behind, ahead⟩
  · intro cases
    rcases cases with ⟨rfl, ignorable, behind, ahead⟩ | ⟨front, skipped, rfl, ignorable, behind, ahead⟩
    · exact ⟨[], rest, rfl, ignorable, behind, ahead⟩
    · exact ⟨character :: front, skipped, rfl, ignorable, by simpa using behind, ahead⟩

theorem sigma_append_eq_iff (before start after : List Char) :
    sigma before (start ++ after) = sigma before start ↔
      ¬(start.all isCaseIgnorable = true ∧ meetsCased before = true ∧ meetsCased after = true) := by
  unfold sigma
  rw [meets_cased_append]
  cases ignorable : start.all isCaseIgnorable with
  | false => simp
  | true =>
      rw [not_meets_cased_of_ignorable ignorable]
      cases meetsCased before <;> cases meetsCased after <;> simp

/-- A text is lower-cased alike with and without what follows it, unless that cuts a word behind a
sigma. -/
theorem lower_between_eq_iff (before start after : List Char) :
    lowerBetween before start after = lowerAfter before start ↔ ¬CutsSigma before start after := by
  induction start generalizing before with
  | nil => simp [lowerBetween, lowerAfter, CutsSigma]
  | cons character rest ih =>
      rw [cuts_sigma_cons, not_or, ← ih, lowerBetween, lowerAfter]
      by_cases isSigma : character = 'Σ'
      · simp only [isSigma, if_true, true_and, ← sigma_append_eq_iff, List.singleton_append,
          List.cons.injEq]
      · simp [isSigma]

/-- The lower-case form of a text begins with that of its start, unless the end of the start cuts a word
behind a sigma. -/
theorem lower_prefix_iff (start after : List Char) :
    lower start <+: lower (start ++ after) ↔ ¬CutsSigma [] start after := by
  have whole : lower (start ++ after) =
      lowerBetween [] start after ++ lowerAfter (start.reverse ++ []) after :=
    lower_after_append [] start after
  have length : (lower start).length = (lowerBetween [] start after).length :=
    (length_lower_between [] start after).symm
  rw [← lower_between_eq_iff, whole]
  constructor
  · intro front
    have within : lower start <+: lowerBetween [] start after :=
      List.prefix_of_prefix_length_le front (List.prefix_append _ _) (Nat.le_of_eq length)
    exact (within.eq_of_length length).symm
  · intro same
    rw [same]
    exact List.prefix_append _ _

/-- Each character of ASCII comes out in its lower-case form. -/
theorem mem_lower {character : Char} (ascii : character.toNat < 0x80) {text : List Char}
    (member : character ∈ text) : character.toLower ∈ lower text := by
  have after (before : List Char) : character.toLower ∈ lowerAfter before text := by
    induction text generalizing before with
    | nil => simp at member
    | cons first rest ih =>
        rw [lowerAfter, List.mem_append]
        rcases List.mem_cons.mp member with rfl | later
        · left
          have notSigma : character ≠ 'Σ' := by
            rintro rfl
            exact absurd ascii (by decide)
          simp [notSigma, lowerChar, ascii]
        · exact .inr (ih later _)
  exact after []

/-- A text of ASCII without capital letters is its own lower-case form. -/
theorem lower_of_small {text : List Char}
    (small : ∀ character ∈ text, character.toNat < 0x80 ∧ character.toLower = character) :
    lower text = text := by
  have after (before : List Char) : lowerAfter before text = text := by
    induction text generalizing before with
    | nil => rfl
    | cons character rest ih =>
        obtain ⟨ascii, lowered⟩ := small character (.head _)
        have notSigma : character ≠ 'Σ' := by
          rintro rfl
          exact absurd ascii (by decide)
        rw [lowerAfter, if_neg notSigma, lowerChar, if_pos ascii, lowered,
          ih (fun other member => small other (.tail _ member)), List.singleton_append]
  exact after []

end TaskCab.Text
