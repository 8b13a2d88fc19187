import TaskCab.Json.Tree
import TaskCab.Value

/-!
# Values from JSON

Integers within the range of words are integers, all other numbers floats. A float is its digits, rounded
once, and then scaled by a power of ten, rounded again; one that is out of range is refused. So is nesting
deeper than a limit.
-/

namespace TaskCab.Json

def digitLimit : Nat := Nat.pow 2 64

def digitOf (character : Char) : Nat := character.toNat - '0'.toNat

/-- Gathers the digits of a whole number. From the first digit that does not fit on, digits only count as
places. -/
def gatherWhole : Nat → List Char → Nat × Nat
  | significand, [] => (significand, 0)
  | significand, digit :: rest =>
      let next := significand * 10 + digitOf digit
      if next < digitLimit then gatherWhole next rest else (significand, rest.length + 1)

def gatherFraction : Nat → List Char → Nat × Nat
  | significand, [] => (significand, 0)
  | significand, digit :: rest =>
      let next := significand * 10 + digitOf digit
      if next < digitLimit then
        let (significand, places) := gatherFraction next rest
        (significand, places + 1)
      else (significand, 0)

def powerOfTen (exponent : Nat) : Nat := Binary64.nearestMagnitude (Nat.pow 10 exponent) 1

/-- Scales a magnitude by a power of ten in steps of at most `10 ^ 308`. What gets infinite is out of
range; what gets zero stays so. -/
def scale? : Nat → Nat → Int → Option Nat
  | 0, magnitude, _ => some magnitude
  | steps + 1, magnitude, exponent =>
      if exponent.natAbs ≤ 308 then
        if 0 ≤ exponent then
          let scaled := Binary64.timesMagnitude magnitude (powerOfTen exponent.natAbs)
          if scaled < Binary64.infinityMagnitude then some scaled else none
        else some (Binary64.divideMagnitude magnitude (powerOfTen exponent.natAbs))
      else if magnitude = 0 then some 0
      else if 0 ≤ exponent then none
      else scale? steps (Binary64.divideMagnitude magnitude (powerOfTen 308)) (exponent + 308)

namespace Numeral

def exponentValue (numeral : Numeral) : Int :=
  match numeral.exponent with
  | none => 0
  | some (negative, digits) =>
      let value : Int := Nat.ofDigitChars 10 digits 0
      if negative then -value else value

def float? (numeral : Numeral) : Option Binary64 := do
  let (whole, dropped) := gatherWhole 0 numeral.whole
  let (significand, places) := gatherFraction whole (numeral.fraction.getD [])
  let exponent := (dropped : Int) - places + numeral.exponentValue
  let magnitude ← scale? 4 (Binary64.nearestMagnitude significand 1) exponent
  some (.ofMagnitude numeral.negative magnitude)

/-- The integer of a numeral that has neither fraction nor exponent. Minus zero is no integer. -/
def integer? (numeral : Numeral) : Option Int :=
  if numeral.fraction.isSome || numeral.exponent.isSome then none
  else
    let value : Int := Nat.ofDigitChars 10 numeral.whole 0
    if numeral.negative then (if value = 0 then none else some (-value)) else some value

def value? (numeral : Numeral) : Option Value :=
  match numeral.integer?.bind Integer.word? with
  | some word => some (.int word)
  | none => numeral.float?.map .float

end Numeral

/-- How many arrays and objects may enclose each other. -/
def depthLimit : Nat := 127

namespace Tree

mutual

def toValue? (depth : Nat) : Tree → Option Value
  | null => some .null
  | bool truth => some (.bool truth)
  | number numeral => numeral.value?
  | str text => text.map .str
  | array items =>
      if depth < depthLimit then (itemValues? (depth + 1) items).map .list else none
  | object members =>
      if depth < depthLimit then
        (memberValues? (depth + 1) members).map fun entries => .map (Entries.ofList entries)
      else none

def itemValues? (depth : Nat) : List Tree → Option (List Value)
  | [] => some []
  | item :: rest => do
      let value ← toValue? depth item
      let values ← itemValues? depth rest
      some (value :: values)

def memberValues? (depth : Nat) : List (Option String × Tree) → Option (List (String × Value))
  | [] => some []
  | (name, item) :: rest => do
      let name ← name
      let value ← toValue? depth item
      let entries ← memberValues? depth rest
      some ((name, value) :: entries)

end

end Tree

def readValue? (text : String) : Option Value :=
  (Tree.ofText? text.toList).bind (Tree.toValue? 0)

end TaskCab.Json
