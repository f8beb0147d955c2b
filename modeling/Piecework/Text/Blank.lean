/-
# Piecework.Text.Blank — the blank characters.

The code points with the Unicode property White_Space: the spaces, tabs and line ends between the
tokens of an expression or around the parts of a setting.
-/
import Piecework.Text.Ranges

namespace Piecework.Text

/-- The ranges of White_Space. -/
def blankRanges : Ranges := [
  (0x9, 0xd), (0x20, 0x20), (0x85, 0x85), (0xa0, 0xa0), (0x1680, 0x1680), (0x2000, 0x200a),
  (0x2028, 0x2029), (0x202f, 0x202f), (0x205f, 0x205f), (0x3000, 0x3000)]

/-- A blank character. -/
def isBlank (c : Char) : Bool := blankRanges.mem c

/-- Drops the blanks at the front. -/
def skipBlanks (text : List Char) : List Char := text.dropWhile isBlank

/-- Drops the blanks at the end. -/
def trimEnd (text : List Char) : List Char := (text.reverse.dropWhile isBlank).reverse

example : blankRanges.ascending = true := by decide

end Piecework.Text
