import Cam.Text.Trim

/-!
# Text/Blank — the white space of Unicode

The twenty-five characters with the `White_Space` property.  A line of input is trimmed of them
before it is tried as an integer; the source text of a program knows only four of them.
-/

namespace Cam.Text

/-- Whether a character has the `White_Space` property. -/
def isBlank (c : Char) : Bool :=
  let n := c.toNat
  (0x09 ≤ n && n ≤ 0x0D) || n == 0x20 || n == 0x85 || n == 0xA0 || n == 0x1680
    || (0x2000 ≤ n && n ≤ 0x200A) || n == 0x2028 || n == 0x2029 || n == 0x202F || n == 0x205F
    || n == 0x3000

/-- The text without blanks at its ends. -/
def trimBlanks (cs : List Char) : List Char := trim isBlank cs

end Cam.Text
