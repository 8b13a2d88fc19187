import TaskCab.Number.Decimal

/-!
# Shortest decimal text

The text of a number has the fewest digits that read back as the number, and of those numerals the
nearest one. A layout then decides where the point and the exponent go.
-/

namespace TaskCab

inductive Tie where
  | up
  | toEven
deriving DecidableEq, Repr

namespace Binary64

/-- The exponent `point` with `10 ^ (point - 1) ≤ number < 10 ^ point`, for a positive finite
magnitude. The factor `10 ^ 400` lifts every such number above one. -/
def pointPosition (magnitude : Nat) : Int :=
  ((Integer.digits (units magnitude * Nat.pow 10 400 / Nat.pow 2 1074)).length : Int) - 400

/-- The numeral with `count` digits nearest to a magnitude, among those that read back as it. The
numerals next to the number below and above are the only ones that can. -/
def nearestReading? (tie : Tie) (magnitude count : Nat) : Option (Nat × Int) :=
  let exponent := pointPosition magnitude - count
  let numerator := units magnitude * Nat.pow 10 (-exponent).toNat
  let denominator := Nat.pow 2 1074 * Nat.pow 10 exponent.toNat
  let below := numerator / denominator
  let remainder := numerator % denominator
  let lower := Decimal.nearestMagnitude below exponent = magnitude
  let upper := Decimal.nearestMagnitude (below + 1) exponent = magnitude
  let takeUpper :=
    denominator < 2 * remainder ∨
      (2 * remainder = denominator ∧ (tie = .up ∨ below % 2 = 1))
  if lower ∧ upper then some (if takeUpper then below + 1 else below, exponent)
  else if lower then some (below, exponent)
  else if upper then some (below + 1, exponent)
  else none

def trimZeros : Nat → Nat → Int → Nat × Int
  | 0, digits, exponent => (digits, exponent)
  | fuel + 1, digits, exponent =>
      if digits ≠ 0 ∧ digits % 10 = 0 then trimZeros fuel (digits / 10) (exponent + 1)
      else (digits, exponent)

def exactDigits (magnitude : Nat) : Nat × Int := (units magnitude * Nat.pow 5 1074, -1074)

/-- The numeral of the fewest digits that reads back. Seventeen digits always suffice. -/
def firstReading (tie : Tie) (magnitude : Nat) : Nat × Int :=
  (((List.range 17).map (· + 1)).findSome? (nearestReading? tie magnitude)).getD
    (exactDigits magnitude)

def shortest (tie : Tie) (magnitude : Nat) : Nat × Int :=
  let reading := firstReading tie magnitude
  trimZeros 800 reading.1 reading.2

end Binary64

/-- How a finite number is laid out: the range of exponents written with a plain point, whether a
whole number keeps `.0`, and the form of an exponent. An exponent here is that of the first digit. -/
structure NumberLayout where
  tie : Tie
  smallest : Int
  largest : Int
  keepPoint : Bool
  exponentSign : Bool
  exponentWidth : Nat
deriving DecidableEq, Repr

namespace NumberLayout

def padded (width : Nat) (digits : List Char) : List Char :=
  List.replicate (width - digits.length) '0' ++ digits

def exponentText (layout : NumberLayout) (exponent : Int) : List Char :=
  let sign := if exponent < 0 then ['-'] else if layout.exponentSign then ['+'] else []
  'e' :: sign ++ padded layout.exponentWidth (Integer.digits exponent.natAbs)

/-- The digits with a point after the first `whole` of them, filled with zeros on either side. -/
def positional (keepPoint : Bool) (digits : List Char) (whole : Int) : List Char :=
  if whole ≤ 0 then '0' :: '.' :: List.replicate (-whole).toNat '0' ++ digits
  else
    let count := whole.toNat
    if digits.length ≤ count then
      digits ++ List.replicate (count - digits.length) '0' ++ (if keepPoint then ['.', '0'] else [])
    else digits.take count ++ '.' :: digits.drop count

def scientific (layout : NumberLayout) (digits : List Char) (exponent : Int) : List Char :=
  let mantissa :=
    match digits with
    | first :: second :: rest => first :: '.' :: second :: rest
    | digits => digits
  mantissa ++ layout.exponentText exponent

def render (layout : NumberLayout) (number : Binary64) : List Char :=
  let sign := if number.isNegative then ['-'] else []
  if number.isZero then sign ++ positional layout.keepPoint ['0'] 1
  else
    let numeral := Binary64.shortest layout.tie number.magnitude
    let text := Integer.digits numeral.1
    let first := numeral.2 + text.length - 1
    if layout.smallest ≤ first ∧ first ≤ layout.largest then
      sign ++ positional layout.keepPoint text (first + 1)
    else sign ++ scientific layout text first

end NumberLayout

end TaskCab
