import TaskCab.Proofs.Yaml.ScalarForm

/-!
# Texts that scalars keep apart

Quotes keep any two texts apart, and a quoted text from every plain one. A plain text loses the blanks at its
end, and two texts have the same scalar only if nothing else tells them apart.
-/

namespace TaskCab.Yaml

open TaskCab.Text

theorem plain_ne_quoted {text : List Char} (written : WrittenPlain text) {quote : Char}
    (isQuote : quote = '"' ∨ quote = '\'') (rest : List Char) : trimEnd text ≠ quote :: rest := by
  intro same
  have start := (written_is_plain written).start quote (by rw [same]; rfl)
  exact isQuote.elim start.1 start.2.1

theorem scalar_of_plain {text : List Char} (written : WrittenPlain text) :
    scalar text = trimEnd text := by
  have notOld : ¬(decide (trimEnd text = text) && isOldScalar text) = true := by
    rw [Bool.and_eq_true, not_and, decide_eq_true_eq]
    intro whole
    simp [written.notOld whole]
  rw [scalar, if_neg (by simp [written.bare]), plainOrQuoted, written.plain]
  exact if_neg notOld

/-- Two texts have the same scalar exactly if they are the same, or are both written plain and differ in
nothing but the blanks at their ends. -/
theorem scalar_eq_iff (left right : List Char) :
    scalar left = scalar right ↔
      left = right ∨ (WrittenPlain left ∧ WrittenPlain right ∧ trimEnd left = trimEnd right) := by
  constructor
  · intro same
    rcases scalar_cases left with ⟨escapeLeft, formsLeft, first⟩ | ⟨-, first⟩ | ⟨plainLeft, first⟩ <;>
      rcases scalar_cases right with ⟨escapeRight, formsRight, second⟩ | ⟨-, second⟩ | ⟨plainRight, second⟩ <;>
        rw [first, second] at same
    · exact .inl (escaped_text_injective formsLeft formsRight same)
    · simp [singleQuoted] at same
    · exact absurd same.symm (plain_ne_quoted plainRight (.inl rfl) _)
    · simp [singleQuoted] at same
    · exact .inl (single_quoted_injective same)
    · exact absurd same.symm (plain_ne_quoted plainRight (.inr rfl) _)
    · exact absurd same (plain_ne_quoted plainLeft (.inl rfl) _)
    · exact absurd same (plain_ne_quoted plainLeft (.inr rfl) _)
    · exact .inr ⟨plainLeft, plainRight, same⟩
  · rintro (rfl | ⟨plainLeft, plainRight, same⟩)
    · rfl
    · rw [scalar_of_plain plainLeft, scalar_of_plain plainRight, same]

/-- A no-break space and an ideographic one are both lost at the end of a plain text. -/
example : scalar "CORRECTED_DATA\u00a0".toList = scalar "CORRECTED_DATA\u3000".toList := by decide

end TaskCab.Yaml
