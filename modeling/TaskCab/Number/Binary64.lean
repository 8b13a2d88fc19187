/-!
# Double-precision numbers

A number is its sixty-four bits. Every finite magnitude is a whole multiple of `2 ^ (-1074)`, and the
magnitudes, read as integers, are ordered like the numbers they stand for; rounding to the nearest
number is therefore one division of natural numbers.
-/

namespace TaskCab

/-- A double-precision number: a sign bit, eleven bits of exponent, fifty-two of fraction. -/
structure Binary64 where
  bits : UInt64
deriving DecidableEq, Repr

namespace Binary64

/-- The magnitude of the infinities; larger magnitudes are not numbers. -/
def infinityMagnitude : Nat := 2047 * Nat.pow 2 52

def isNegative (number : Binary64) : Bool := decide (Nat.pow 2 63 ≤ number.bits.toNat)

def magnitude (number : Binary64) : Nat := number.bits.toNat % Nat.pow 2 63

def ofMagnitude (negative : Bool) (magnitude : Nat) : Binary64 :=
  ⟨UInt64.ofNat (if negative then Nat.pow 2 63 + magnitude else magnitude)⟩

def isNaN (number : Binary64) : Bool := decide (infinityMagnitude < number.magnitude)

def isInfinite (number : Binary64) : Bool := decide (number.magnitude = infinityMagnitude)

def isFinite (number : Binary64) : Bool := decide (number.magnitude < infinityMagnitude)

def infinity (negative : Bool) : Binary64 := ofMagnitude negative infinityMagnitude

def nan : Binary64 := ofMagnitude false (infinityMagnitude + Nat.pow 2 51)

def zero : Binary64 := ofMagnitude false 0

def neg (number : Binary64) : Binary64 := ofMagnitude (!number.isNegative) number.magnitude

def scale (magnitude : Nat) : Nat := magnitude / Nat.pow 2 52 - 1

def significand (magnitude : Nat) : Nat := magnitude - scale magnitude * Nat.pow 2 52

/-- A finite magnitude as a multiple of `2 ^ (-1074)`. -/
def units (magnitude : Nat) : Nat := significand magnitude * Nat.pow 2 (scale magnitude)

/-- The magnitude nearest to a quotient. A tie goes to the even significand, and what is too large
becomes infinite. -/
def nearestMagnitude (numerator denominator : Nat) : Nat :=
  let scaled := numerator * Nat.pow 2 1074
  let scale := (scaled / denominator).log2 - 52
  let place := denominator * Nat.pow 2 scale
  let quotient := scaled / place
  let remainder := scaled % place
  let rounded :=
    if 2 * remainder < place ∨ (2 * remainder = place ∧ quotient % 2 = 0) then quotient
    else quotient + 1
  min (scale * Nat.pow 2 52 + rounded) infinityMagnitude

def timesMagnitude (left right : Nat) : Nat :=
  nearestMagnitude (units left * units right) (Nat.pow 2 1074 * Nat.pow 2 1074)

def divideMagnitude (left right : Nat) : Nat := nearestMagnitude (units left) (units right)

def ofInt (integer : Int) : Binary64 :=
  ofMagnitude (decide (integer < 0)) (nearestMagnitude integer.natAbs 1)

/-- Equality of numbers: the two zeros are equal, and what is not a number equals nothing. -/
def numericEq (left right : Binary64) : Bool :=
  !left.isNaN && !right.isNaN &&
    (left == right || (left.magnitude == 0 && right.magnitude == 0))

def isZero (number : Binary64) : Bool := number.magnitude == 0

def truncate (number : Binary64) : Int :=
  let whole : Int := units number.magnitude / Nat.pow 2 1074
  if number.isNegative then -whole else whole

end Binary64

end TaskCab
