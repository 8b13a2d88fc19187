import Mathlib.Tactic.ByContra
import Mathlib.Tactic.SplitIfs
import TaskCab.Json.Tree

/-!
# Strings in JSON text

The text of a string is read back up to its closing quote, whatever follows, and denotes the string
again. Every character is one unit of it.
-/

namespace TaskCab.Json

namespace Tree

def unitOf (character : Char) : CodeUnit :=
  if (escapeChar character).take 2 = ['\\', 'u'] then .escaped character.toNat
  else .character character

theorem units_skip {front : List Char} (rest : List Char) :
    units? front.length (front ++ rest) = units? 0 rest := by
  induction front with
  | nil => rfl
  | cons character front ih => exact ih

theorem hexadecimal_control {code : Nat} (control : code < 0x20) :
    (hexadecimal code).length = 4 ∧ Integer.readDigits? 16 0 (hexadecimal code) = some code := by
  revert code
  decide

theorem units_hexadecimal {code : Nat} (control : code < 0x20) (rest : List Char) :
    units? 0 ('\\' :: 'u' :: hexadecimal code ++ rest) =
      (units? 0 rest).map fun (units, after) => (.escaped code :: units, after) := by
  obtain ⟨length, digits⟩ := hexadecimal_control control
  have digitsAhead : (hexadecimal code ++ rest).take 4 = hexadecimal code := by
    rw [← length, List.take_left']
    rfl
  have escape : escape? ('u' :: (hexadecimal code ++ rest)) = some (.escaped code, 5) := by
    simp [escape?, digitsAhead, length, digits]
  have skipped : units? 5 ('u' :: (hexadecimal code ++ rest)) = units? 0 rest := by
    have := @units_skip ('u' :: hexadecimal code) rest
    rwa [List.length_cons, length] at this
  rw [List.cons_append, List.cons_append, units?, if_neg (by decide), if_pos rfl, escape]
  simp only [Option.bind_eq_bind, Option.bind_some, skipped]
  cases units? 0 rest <;> rfl

/-- The text of a character is read as its unit, in front of any text. -/
theorem units_escape_char (character : Char) (rest : List Char) :
    units? 0 (escapeChar character ++ rest) =
      (units? 0 rest).map fun (units, after) => (unitOf character :: units, after) := by
  have simple {letter denoted : Char} (found : simpleEscapes.lookup letter = some denoted)
      (noUnit : letter ≠ 'u') :
      units? 0 ('\\' :: letter :: rest) =
        (units? 0 rest).map fun (units, after) => (.character denoted :: units, after) := by
    rw [units?, if_neg (by decide), if_pos rfl, escape?, if_neg noUnit, found]
    simp only [Option.map_some, Option.bind_eq_bind, Option.bind_some, units?]
    cases units? 0 rest <;> rfl
  by_cases escaped : character ∈ ['"', '\\', '\x08', '\x0c', '\n', '\r', '\t']
  · simp only [List.mem_cons, List.not_mem_nil, or_false] at escaped
    rcases escaped with rfl | rfl | rfl | rfl | rfl | rfl | rfl <;> exact simple rfl (by decide)
  · simp only [List.mem_cons, List.not_mem_nil, or_false, not_or] at escaped
    obtain ⟨noQuote, noBackslash, noBack, noFeed, noLine, noReturn, noTab⟩ := escaped
    have plain : escapeChar character =
        if character.toNat < 0x20 then '\\' :: 'u' :: hexadecimal character.toNat
        else [character] := by
      simp [escapeChar, noQuote, noBackslash, noBack, noFeed, noLine, noReturn, noTab]
    rw [unitOf, plain]
    by_cases control : character.toNat < 0x20
    · simp only [if_pos control, List.take_succ_cons, List.take_zero, if_true]
      exact units_hexadecimal control rest
    · have alone : ([character].take 2 = ['\\', 'u']) = False := by simp
      simp only [if_neg control, alone, if_false, List.singleton_append]
      rw [units?, if_neg noQuote, if_neg noBackslash, if_neg control]
      cases units? 0 rest <;> rfl

theorem units_escaped (text rest : List Char) :
    units? 0 (text.flatMap escapeChar ++ '"' :: rest) = some (text.map unitOf, rest) := by
  induction text with
  | nil => simp [units?]
  | cons character text ih =>
      rw [List.flatMap_cons, List.append_assoc, units_escape_char, ih]
      rfl

theorem text_of_escaped {code : Nat} (low : code < 0xD800) (rest : List CodeUnit) :
    textOf? (.escaped code :: rest) = (textOf? rest).map (Char.ofNat code :: ·) := by
  have notHigh : isHighSurrogate code = false := by simp [isHighSurrogate]; omega
  have notLow : isLowSurrogate code = false := by simp [isLowSurrogate]; omega
  cases rest with
  | nil => simp [textOf?, notHigh, notLow]
  | cons unit rest =>
      cases unit with
      | character => simp [textOf?, notHigh, notLow]
      | escaped => rw [textOf?, notHigh, notLow]; rfl

theorem control_of_escape {character : Char}
    (escape : (escapeChar character).take 2 = ['\\', 'u']) : character.toNat < 0x20 := by
  by_contra large
  unfold escapeChar at escape
  split_ifs at escape <;> simp at escape

theorem text_of_units (text : List Char) : textOf? (text.map unitOf) = some text := by
  induction text with
  | nil => rfl
  | cons character text ih =>
      rw [List.map_cons, unitOf]
      split
      next escape =>
        rw [text_of_escaped (by have := control_of_escape escape; omega), ih, Char.ofNat_toNat]
        rfl
      next => rw [textOf?, ih]; rfl

/-- A quoted text is read back after its opening quote. -/
theorem string_quoted (text : String) (rest : List Char) :
    string? (text.toList.flatMap escapeChar ++ '"' :: rest) = some (some text, rest) := by
  simp [string?, units_escaped, text_of_units]

end Tree

end TaskCab.Json
