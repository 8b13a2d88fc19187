import TaskCab.Number.Binary64
import TaskCab.Number.Integer

/-!
# Decimal numerals

A numeral is a sign, digits read as one natural number, and a power of ten. It denotes the nearest
double-precision number.
-/

namespace TaskCab

structure Decimal where
  negative : Bool
  digits : Nat
  exponent : Int
deriving DecidableEq, Repr

namespace Decimal

def ratio (digits : Nat) (exponent : Int) : Nat × Nat :=
  (digits * Nat.pow 10 exponent.toNat, Nat.pow 10 (-exponent).toNat)

/-- The magnitude nearest to a numeral. Numerals beyond all numbers, or below half of the smallest
one, are settled by their count of digits, so that no huge power is formed. -/
def nearestMagnitude (digits : Nat) (exponent : Int) : Nat :=
  if digits = 0 then 0
  else
    let size := (Integer.digits digits).length + exponent
    if 310 < size then Binary64.infinityMagnitude
    else if size < -330 then 0
    else
      let (numerator, denominator) := ratio digits exponent
      Binary64.nearestMagnitude numerator denominator

def toBinary64 (decimal : Decimal) : Binary64 :=
  .ofMagnitude decimal.negative (nearestMagnitude decimal.digits decimal.exponent)

def readExponent? : List Char → Option Int
  | [] => some 0
  | letter :: rest => if letter = 'e' ∨ letter = 'E' then Integer.read? rest else none

def readUnsigned? (negative : Bool) (text : List Char) : Option Decimal := do
  let (whole, rest) := text.span Char.isDigit
  let (fraction, rest) :=
    match rest with
    | '.' :: rest => rest.span Char.isDigit
    | rest => ([], rest)
  if whole.isEmpty && fraction.isEmpty then none
  let exponent ← readExponent? rest
  let digits ← Integer.readDigits? 10 0 (whole ++ fraction)
  some ⟨negative, digits, exponent - fraction.length⟩

def read? : List Char → Option Decimal
  | '-' :: rest => readUnsigned? true rest
  | '+' :: rest => readUnsigned? false rest
  | rest => readUnsigned? false rest

end Decimal

namespace Binary64

/-- The words, in any ASCII case, for what is not finite. -/
def readWord? (negative : Bool) (text : List Char) : Option Binary64 :=
  let lowered := text.map Char.toLower
  if lowered = "inf".toList ∨ lowered = "infinity".toList then some (infinity negative)
  else if lowered = "nan".toList then some nan
  else none

def read? (text : List Char) : Option Binary64 :=
  let word :=
    match text with
    | '-' :: rest => readWord? true rest
    | '+' :: rest => readWord? false rest
    | rest => readWord? false rest
  word <|> (Decimal.read? text).map Decimal.toBinary64

end Binary64

end TaskCab
