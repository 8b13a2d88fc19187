/-!
# Integers as text and as words

Integers are read from an optional sign and ASCII digits alone. Those of the value language are signed
words of sixty-four bits; an integer outside that range is never cut to it silently.
-/

namespace TaskCab.Integer

def word? (integer : Int) : Option Int64 :=
  if Int64.minValue.toInt ≤ integer ∧ integer ≤ Int64.maxValue.toInt then some (Int64.ofInt integer)
  else none

def clamp (integer : Int) : Int64 :=
  if integer < Int64.minValue.toInt then Int64.minValue
  else if Int64.maxValue.toInt < integer then Int64.maxValue
  else Int64.ofInt integer

def digitValue? (radix : Nat) (character : Char) : Option Nat :=
  let value :=
    if character.isDigit then character.toNat - '0'.toNat
    else if 'a' ≤ character ∧ character ≤ 'f' then character.toNat - 'a'.toNat + 10
    else if 'A' ≤ character ∧ character ≤ 'F' then character.toNat - 'A'.toNat + 10
    else radix
  if value < radix then some value else none

/-- Continues a numeral whose digits so far have the value `start`. -/
def readDigits? (radix : Nat) : Nat → List Char → Option Nat
  | start, [] => some start
  | start, character :: rest => do
      let value ← digitValue? radix character
      readDigits? radix (start * radix + value) rest

def readNat? (radix : Nat) (text : List Char) : Option Nat :=
  if text.isEmpty then none else readDigits? radix 0 text

def read? : List Char → Option Int
  | '-' :: digits => (readNat? 10 digits).map fun value => -(value : Int)
  | '+' :: digits => (readNat? 10 digits).map fun value => (value : Int)
  | digits => (readNat? 10 digits).map fun value => (value : Int)

def readWord? (text : List Char) : Option Int64 := (read? text).bind word?

def digits (number : Nat) : List Char := Nat.toDigits 10 number

def render (integer : Int) : List Char :=
  if integer < 0 then '-' :: digits integer.natAbs else digits integer.natAbs

end TaskCab.Integer
