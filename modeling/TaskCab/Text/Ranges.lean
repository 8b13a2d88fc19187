/-!
# Sets of characters as ranges of codes
-/

namespace TaskCab.Text

def inRanges (ranges : List (Nat × Nat)) (character : Char) : Bool :=
  ranges.any fun range => decide (range.1 ≤ character.toNat ∧ character.toNat ≤ range.2)

end TaskCab.Text
