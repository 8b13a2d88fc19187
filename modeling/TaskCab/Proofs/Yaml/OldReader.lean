import Mathlib.Computability.RegularExpressions
import TaskCab.Number.Integer
import TaskCab.Text.Search

/-!
# Readers of the older version

A reader of the older version gives each plain scalar the kind of the first pattern that it matches, and takes
it for a text if it matches none.
-/

namespace TaskCab.Yaml.OldReader

open TaskCab.Text

/-! ## Patterns -/

abbrev Pattern := RegularExpression Char

namespace Pattern

def oneOf (characters : String) : Pattern := (characters.toList.map RegularExpression.char).sum

def word (text : String) : Pattern := (text.toList.map RegularExpression.char).prod

def oneWord (words : List String) : Pattern := (words.map word).sum

def optional (pattern : Pattern) : Pattern := pattern + 1

def repeated (pattern : Pattern) : Pattern := pattern * pattern.star

end Pattern

open Pattern

def sign : Pattern := optional (oneOf "+-")

def digit : Pattern := oneOf "0123456789"

def digits : Pattern := (oneOf "0123456789_").star

def boolPattern : Pattern :=
  oneWord ["yes", "Yes", "YES", "no", "No", "NO", "true", "True", "TRUE", "false", "False", "FALSE", "on",
    "On", "ON", "off", "Off", "OFF"]

def places : Pattern := repeated (word ":" * optional (oneOf "012345") * digit)

def exponent : Pattern := optional (oneOf "eE" * oneOf "+-" * repeated digit)

def floatPattern : Pattern :=
  sign * digit * digits * word "." * digits * exponent + word "." * digit * digits * exponent +
    sign * digit * digits * places * word "." * digits + sign * word "." * oneWord ["inf", "Inf", "INF"] +
    word "." * oneWord ["nan", "NaN", "NAN"]

def intPattern : Pattern :=
  sign * word "0b" * repeated (oneOf "01_") + sign * word "0" * repeated (oneOf "01234567_") +
    sign * (word "0" + oneOf "123456789" * digits) +
    sign * word "0x" * repeated (oneOf "0123456789abcdefABCDEF_") +
    sign * oneOf "123456789" * digits * places

def mergePattern : Pattern := word "<<"

def nullPattern : Pattern := oneWord ["~", "null", "Null", "NULL", ""]

def year : Pattern := digit * digit * digit * digit

def shortNumber : Pattern := digit * optional digit

def zone : Pattern :=
  (oneOf " \t").star *
    (word "Z" + oneOf "+-" * shortNumber * optional (word ":" * digit * digit))

def time : Pattern :=
  shortNumber * word ":" * digit * digit * word ":" * digit * digit * optional (word "." * digit.star) *
    optional zone

def timestampPattern : Pattern :=
  year * word "-" * digit * digit * word "-" * digit * digit +
    year * word "-" * shortNumber * word "-" * shortNumber *
      ((oneOf "Tt" + repeated (oneOf " \t")) * time)

def valuePattern : Pattern := word "="

/-! ## Kinds -/

inductive Kind where
  | bool
  | float
  | int
  | merge
  | null
  | timestamp
  | value
  | text
deriving DecidableEq, Repr

/-- The patterns, in the order in which they are tried. -/
def patterns : List (Kind × Pattern) :=
  [(.bool, boolPattern), (.float, floatPattern), (.int, intPattern), (.merge, mergePattern),
    (.null, nullPattern), (.timestamp, timestampPattern), (.value, valuePattern)]

/-- The kind of a plain scalar. -/
def kind (scalar : List Char) : Kind :=
  ((patterns.find? fun entry => entry.2.rmatch scalar).map Prod.fst).getD .text

def truth (scalar : List Char) : Bool :=
  ["yes", "true", "on"].any fun word => scalar.map Char.toLower = word.toList

/-- The magnitude of an integer without sign and underscores: binary, hexadecimal, octal, to the base sixty or
decimal. -/
def magnitude? (digits : List Char) : Option Nat :=
  match digits with
  | ['0'] => some 0
  | '0' :: 'b' :: rest => Integer.readNat? 2 rest
  | '0' :: 'x' :: rest => Integer.readNat? 16 rest
  | '0' :: rest => Integer.readNat? 8 rest
  | digits =>
      ((splitWhere (· == ':') digits).mapM (Integer.readNat? 10)).map fun numbers =>
        numbers.foldl (fun total number => 60 * total + number) 0

def integer? (scalar : List Char) : Option Int :=
  match scalar.filter (· ≠ '_') with
  | '-' :: digits => (magnitude? digits).map fun magnitude => -Int.ofNat magnitude
  | '+' :: digits => (magnitude? digits).map Int.ofNat
  | digits => (magnitude? digits).map Int.ofNat

/-! ## What patterns match -/

namespace Pattern

theorem one_of_iff (characters : String) (text : List Char) :
    (oneOf characters).rmatch text = true ↔ ∃ character ∈ characters.toList, text = [character] := by
  unfold oneOf
  induction characters.toList with
  | nil => simp
  | cons character rest ih =>
      rw [List.map_cons, List.sum_cons, RegularExpression.add_rmatch_iff,
        RegularExpression.char_rmatch_iff, ih]
      simp

theorem word_iff (letters : String) (text : List Char) :
    (word letters).rmatch text = true ↔ text = letters.toList := by
  unfold word
  induction letters.toList generalizing text with
  | nil => simp
  | cons character rest ih =>
      rw [List.map_cons, List.prod_cons, RegularExpression.mul_rmatch_iff]
      constructor
      · intro parts
        obtain ⟨front, back, rfl, isFront, isBack⟩ := parts
        rw [RegularExpression.char_rmatch_iff] at isFront
        rw [ih] at isBack
        rw [isFront, isBack, List.singleton_append]
      · intro same
        refine ⟨[character], rest, same, ?_, ?_⟩
        · rw [RegularExpression.char_rmatch_iff]
        · rw [ih]

theorem one_word_iff (words : List String) (text : List Char) :
    (oneWord words).rmatch text = true ↔ ∃ word ∈ words, text = word.toList := by
  unfold oneWord
  induction words with
  | nil => simp
  | cons first rest ih =>
      rw [List.map_cons, List.sum_cons, RegularExpression.add_rmatch_iff, word_iff, ih]
      simp

theorem optional_iff (pattern : Pattern) (text : List Char) :
    (optional pattern).rmatch text = true ↔ pattern.rmatch text = true ∨ text = [] := by
  rw [optional, RegularExpression.add_rmatch_iff, RegularExpression.one_rmatch_iff]

theorem star_one_of_iff (characters : String) (text : List Char) :
    (oneOf characters).star.rmatch text = true ↔
      ∀ character ∈ text, character ∈ characters.toList := by
  rw [RegularExpression.star_rmatch_iff]
  constructor
  · intro parts character member
    obtain ⟨pieces, rfl, each⟩ := parts
    obtain ⟨piece, inPieces, inPiece⟩ := List.mem_flatten.mp member
    obtain ⟨other, known, rfl⟩ := (one_of_iff characters piece).mp (each piece inPieces).2
    rw [List.mem_singleton.mp inPiece]
    exact known
  · intro known
    refine ⟨text.map fun character => [character], ?_, ?_⟩
    · induction text with
      | nil => rfl
      | cons character rest ih =>
          rw [List.map_cons, List.flatten_cons, ← ih fun c member => known c (.tail _ member)]
          rfl
    · intro piece member
      obtain ⟨character, inText, rfl⟩ := List.mem_map.mp member
      exact ⟨by simp, (one_of_iff characters _).mpr ⟨character, known character inText, rfl⟩⟩

theorem repeated_one_of_iff (characters : String) (text : List Char) :
    (repeated (oneOf characters)).rmatch text = true ↔
      text ≠ [] ∧ ∀ character ∈ text, character ∈ characters.toList := by
  rw [repeated, RegularExpression.mul_rmatch_iff]
  constructor
  · intro parts
    obtain ⟨front, back, rfl, isFront, isBack⟩ := parts
    obtain ⟨first, known, rfl⟩ := (one_of_iff characters front).mp isFront
    refine ⟨by simp, ?_⟩
    exact List.forall_mem_cons.mpr ⟨known, (star_one_of_iff characters back).mp isBack⟩
  · intro known
    obtain ⟨nonempty, each⟩ := known
    obtain ⟨first, rest, rfl⟩ := List.exists_cons_of_ne_nil nonempty
    obtain ⟨isFirst, later⟩ := List.forall_mem_cons.mp each
    refine ⟨[first], rest, rfl, ?_, ?_⟩
    · exact (one_of_iff characters _).mpr ⟨first, isFirst, rfl⟩
    · exact (star_one_of_iff characters rest).mpr later

end Pattern

end TaskCab.Yaml.OldReader
