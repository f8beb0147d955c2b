/-
# Piecework.Text.Ranges — sets of code points given by their ranges.

The character classes of the Unicode standard are data: ascending ranges of code points with both ends
included.  Each class has a module of its own; this one holds the shared membership test.
-/
namespace Piecework.Text

/-- Ascending, disjoint ranges of code points, both ends included. -/
abbrev Ranges := List (Nat × Nat)

/-- Whether a character lies in one of the ranges.  The ranges ascend, so the walk ends at the first
one that starts above the character. -/
def Ranges.mem : Ranges → Char → Bool
  | [], _ => false
  | (first, last) :: rest, c =>
    if c.toNat < first then false
    else if c.toNat ≤ last then true
    else mem rest c

/-- The ranges are in order, apart from each other and within the code space. -/
def Ranges.ascending : Ranges → Bool
  | [] => true
  | [(first, last)] => first ≤ last && last < 0x110000
  | (first, last) :: (next, beyond) :: rest =>
    first ≤ last && last + 1 < next && ascending ((next, beyond) :: rest)

end Piecework.Text
