/-!
# Blank characters

The characters that separate tokens and that are trimmed from a line when it is shown: those with
the property White_Space.
-/

namespace LittleTiny.Text

/-- Whether the character is white space in any script. -/
def isBlank (c : Char) : Bool :=
  let n := c.toNat
  (0x9 ≤ n && n ≤ 0xd) || n == 0x20 || n == 0x85 || n == 0xa0 || n == 0x1680 ||
    (0x2000 ≤ n && n ≤ 0x200a) || n == 0x2028 || n == 0x2029 || n == 0x202f || n == 0x205f ||
    n == 0x3000

/-- The text without the blanks at its two ends. -/
def trim (cs : List Char) : List Char :=
  ((cs.dropWhile isBlank).reverse.dropWhile isBlank).reverse

/-- The number of blanks that `trim` takes from the front. -/
def indent (cs : List Char) : Nat := (cs.takeWhile isBlank).length

end LittleTiny.Text
