import TaskCab.Proofs.Text.Joined
import TaskCab.Proofs.Text.Trim
import TaskCab.Text.Lowercase

/-!
# What a lower-case form does not depend on

The case of ASCII letters is lost. Apart from the form of its small sigmas, each character of a text is
lower-cased by itself, so that a part without sigmas which occurs in the lower-case form of a text is still
there when the text is continued at either end.
-/

namespace TaskCab.Text

/-! ## Sigmas -/

/-- The form of a character in which the two small sigmas are one. -/
def oneSigma (character : Char) : Char := if character = 'ς' then 'σ' else character

/-- The lower-case form of a text in which the two small sigmas are one. Each character has a form of its
own, whatever its neighbours are. -/
def lowerEach (text : List Char) : List Char :=
  text.flatMap fun character => (lowerChar character).map oneSigma

theorem lower_each_append (text rest : List Char) :
    lowerEach (text ++ rest) = lowerEach text ++ lowerEach rest :=
  List.flatMap_append

theorem one_sigma_lower (text : List Char) : (lower text).map oneSigma = lowerEach text := by
  have capital (before after : List Char) :
      [sigma before after].map oneSigma = (lowerChar 'Σ').map oneSigma := by
    unfold sigma
    split <;> decide
  have after (before : List Char) : (lowerAfter before text).map oneSigma = lowerEach text := by
    induction text generalizing before with
    | nil => rfl
    | cons character rest ih =>
        have whole : lowerEach (character :: rest) =
            (lowerChar character).map oneSigma ++ lowerEach rest := rfl
        rw [lowerAfter, List.map_append, ih, whole]
        split
        next isSigma => rw [isSigma, capital]
        next => rfl
  exact after []

def HasNoSigma (text : List Char) : Prop := ∀ character ∈ text, character ≠ 'σ' ∧ character ≠ 'ς'

instance : DecidablePred HasNoSigma := fun text =>
  inferInstanceAs (Decidable (∀ character ∈ text, character ≠ 'σ' ∧ character ≠ 'ς'))

theorem one_sigma_eq_iff {character other : Char} (noSigma : other ≠ 'σ' ∧ other ≠ 'ς') :
    oneSigma character = other ↔ character = other := by
  unfold oneSigma
  split
  next final =>
    subst final
    exact ⟨fun same => absurd same.symm noSigma.1, fun same => absurd same.symm noSigma.2⟩
  next => rfl

theorem map_one_sigma_eq_iff {text part : List Char} (noSigma : HasNoSigma part) :
    text.map oneSigma = part ↔ text = part := by
  induction part generalizing text with
  | nil => simp
  | cons character rest ih =>
      have noSigmaRest : HasNoSigma rest := fun other member => noSigma other (.tail _ member)
      cases text with
      | nil => simp
      | cons first more => simp [one_sigma_eq_iff (noSigma character (.head _)), ih noSigmaRest]

/-- A part without sigmas occurs in a lower-case form whatever form the sigmas of the text take. -/
theorem occurs_lower_iff {part : List Char} (noSigma : HasNoSigma part) (text : List Char) :
    occurs part (lower text) = true ↔ part <:+: lowerEach text := by
  rw [occurs_iff_within, ← one_sigma_lower]
  constructor
  · intro inside
    have mapped := inside.map oneSigma
    rwa [(map_one_sigma_eq_iff noSigma).mpr rfl] at mapped
  · rintro ⟨before, after, whole⟩
    obtain ⟨front, rear, split, sameFront, -⟩ := List.map_eq_append_iff.mp whole.symm
    obtain ⟨start, middle, splitFront, -, same⟩ := List.map_eq_append_iff.mp sameFront
    obtain rfl := (map_one_sigma_eq_iff noSigma).mp same
    exact ⟨start, rear, by rw [split, splitFront]⟩

/-- A part without sigmas that occurs in the lower-case form of a text occurs in that of each longer
text. -/
theorem occurs_lower_of_within {part text longer : List Char} (noSigma : HasNoSigma part)
    (within : text <:+: longer) (occurring : occurs part (lower text) = true) :
    occurs part (lower longer) = true := by
  rw [occurs_lower_iff noSigma] at occurring ⊢
  obtain ⟨before, after, rfl⟩ := within
  rw [lower_each_append, lower_each_append]
  exact occurring.trans ⟨lowerEach before, lowerEach after, rfl⟩

/-! ## Letter case of ASCII -/

def capitals : List Char := "ABCDEFGHIJKLMNOPQRSTUVWXYZ".toList

/-- What holds of the capitals of ASCII holds of each character that lowering changes. -/
theorem of_to_lower {Result : Type} {read : Char → Result}
    (capital : ∀ letter ∈ capitals, read letter.toLower = read letter) (character : Char) :
    read character.toLower = read character := by
  rcases to_lower_cases character with same | ⟨first, last, -⟩
  · rw [same]
  · have codes : ∀ code < 91, 65 ≤ code → Char.ofNat code ∈ capitals := by decide
    have isCapital := codes character.toNat (by omega) first
    rw [Char.ofNat_toNat] at isCapital
    exact capital character isCapital

theorem is_cased_to_lower (character : Char) : isCased character.toLower = isCased character :=
  of_to_lower (by decide +kernel) character

theorem not_case_ignorable_of_letter {letter : Char}
    (isLetter : 65 ≤ letter.toNat ∧ letter.toNat ≤ 90 ∨ 97 ≤ letter.toNat ∧ letter.toNat ≤ 122) :
    isCaseIgnorable letter = false := by
  have apart : ∀ range ∈ caseIgnorableRanges,
      range.2 < 65 ∨ 90 < range.1 ∧ range.2 < 97 ∨ 122 < range.1 := by decide +kernel
  rw [isCaseIgnorable, inRanges, List.any_eq_false]
  intro range member within
  have outside := apart range member
  rw [decide_eq_true_eq] at within
  omega

theorem is_case_ignorable_to_lower (character : Char) :
    isCaseIgnorable character.toLower = isCaseIgnorable character := by
  rcases to_lower_cases character with same | ⟨first, last, lowered⟩
  · rw [same]
  · have capital := not_case_ignorable_of_letter (.inl ⟨first, last⟩)
    have small := @not_case_ignorable_of_letter character.toLower (by omega)
    rw [capital, small]

theorem lower_char_to_lower (character : Char) : lowerChar character.toLower = lowerChar character :=
  of_to_lower (by decide +kernel) character

theorem to_lower_eq_sigma_iff (character : Char) : character.toLower = 'Σ' ↔ character = 'Σ' := by
  have same : (character.toLower == 'Σ') = (character == 'Σ') :=
    @of_to_lower Bool (· == 'Σ') (by decide) character
  rw [Bool.eq_iff_iff, beq_iff_eq, beq_iff_eq] at same
  exact same

theorem meets_cased_to_lower (text : List Char) : meetsCased (text.map Char.toLower) = meetsCased text := by
  have looked : isCaseIgnorable ∘ Char.toLower = isCaseIgnorable := funext is_case_ignorable_to_lower
  unfold meetsCased
  rw [List.dropWhile_map, looked]
  cases text.dropWhile isCaseIgnorable with
  | nil => rfl
  | cons character rest => exact is_cased_to_lower character

/-- The lower-case form of a text does not depend on the case of its ASCII letters. -/
theorem lower_to_lower (text : List Char) : lower (text.map Char.toLower) = lower text := by
  have after (before : List Char) :
      lowerAfter (before.map Char.toLower) (text.map Char.toLower) = lowerAfter before text := by
    induction text generalizing before with
    | nil => rfl
    | cons character rest ih =>
        have later := ih (character :: before)
        rw [List.map_cons] at later
        rw [List.map_cons, lowerAfter, lowerAfter, later]
        simp only [to_lower_eq_sigma_iff, lower_char_to_lower, sigma, meets_cased_to_lower]
  exact after []

theorem lower_of_same {left right : List Char} (same : sameIgnoringCase left right = true) :
    lower left = lower right := by
  rw [← lower_to_lower left, eq_of_beq same, lower_to_lower]

end TaskCab.Text
