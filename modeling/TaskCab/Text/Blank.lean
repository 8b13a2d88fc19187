/-!
# Blank and control characters

Blank is every character with the Unicode property `White_Space`, control every one of the category
`Cc`. Trimming takes blank characters off the ends of a text.
-/

namespace TaskCab.Text

def isBlank (character : Char) : Bool :=
  let code := character.toNat
  decide (9 ≤ code ∧ code ≤ 13) || code == 0x20 || code == 0x85 || code == 0xA0 || code == 0x1680 ||
    decide (0x2000 ≤ code ∧ code ≤ 0x200A) || code == 0x2028 || code == 0x2029 || code == 0x202F ||
    code == 0x205F || code == 0x3000

def isControl (character : Char) : Bool :=
  let code := character.toNat
  decide (code < 0x20) || decide (0x7F ≤ code ∧ code ≤ 0x9F)

def trimStart (text : List Char) : List Char := text.dropWhile isBlank

def trimEnd (text : List Char) : List Char := (text.reverse.dropWhile isBlank).reverse

def trim (text : List Char) : List Char := trimEnd (trimStart text)

def isBlankText (text : List Char) : Bool := text.all isBlank

end TaskCab.Text
