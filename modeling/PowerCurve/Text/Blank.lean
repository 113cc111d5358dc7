/-!
# Blank characters

The characters that may surround a value without belonging to it are those with the Unicode
property `White_Space`. The zero-width space and the byte order mark do not have it.
-/

namespace PowerCurve.Text

/-- The `White_Space` characters, as closed ranges of code points. -/
def blankRanges : List (Nat × Nat) :=
  [(0x09, 0x0D), (0x20, 0x20), (0x85, 0x85), (0xA0, 0xA0), (0x1680, 0x1680), (0x2000, 0x200A),
    (0x2028, 0x2029), (0x202F, 0x202F), (0x205F, 0x205F), (0x3000, 0x3000)]

/-- Whether a character is blank. -/
def isBlank (c : Char) : Bool :=
  blankRanges.any fun r => decide (r.1 ≤ c.toNat) && decide (c.toNat ≤ r.2)

/-- The text without the blanks at its two ends. -/
def trim (text : List Char) : List Char :=
  ((text.dropWhile isBlank).reverse.dropWhile isBlank).reverse

/-- Whether a text consists of blanks only. -/
def allBlank (text : List Char) : Bool :=
  text.all isBlank

end PowerCurve.Text
