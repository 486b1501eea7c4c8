/-!
# Blank characters

The characters with the Unicode property White_Space. Number texts and timestamps may have them at
places where their grammars allow blanks.
-/

set_option autoImplicit false

namespace AbilityGraph

/-- Whether a character has the Unicode property White_Space. -/
def isBlank (c : Char) : Bool :=
  let n := c.toNat
  (0x09 ≤ n && n ≤ 0x0D) || n == 0x20 || n == 0x85 || n == 0xA0 || n == 0x1680
    || (0x2000 ≤ n && n ≤ 0x200A) || n == 0x2028 || n == 0x2029 || n == 0x202F || n == 0x205F
    || n == 0x3000

/-- The text without blanks at its start. -/
def dropBlanks (text : List Char) : List Char := text.dropWhile isBlank

/-- The text without blanks at its two ends. -/
def trimBlanks (text : List Char) : List Char :=
  ((dropBlanks text).reverse.dropWhile isBlank).reverse

end AbilityGraph
