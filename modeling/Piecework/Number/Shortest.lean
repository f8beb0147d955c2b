/-
# Piecework.Number.Shortest — the shortest decimal that reads back as a given double.

The reals that round to a positive double form an interval around it; the ends belong to it when the
significand is even.  On the decimal grid of step `10 ^ p` the two neighbours of the value are the
only candidates: if any point of a grid lies in the interval, so does one of these.  The coarsest grid
with a hit has the fewest digits, and of two hits the nearer wins.  Which way an exact tie goes is a
choice of the text format, and so is a parameter.
-/
import Piecework.Number.Binary64

namespace Piecework.Number

/-- Which of two equally near decimals is taken. -/
inductive Tie where
  /-- The larger one. -/
  | up
  /-- The one with an even last digit. -/
  | even
deriving DecidableEq, Repr

/-- A positive double with the ends of its rounding interval, in quarters of its last bit: the value
is `4 · significand`, and all three are multiplied by `2 ^ (exponent - 2)`. -/
structure Interval where
  low : Nat
  value : Nat
  high : Nat
  exponent : Int
  /-- Whether the ends themselves round to the value. -/
  closed : Bool
deriving DecidableEq, Repr

/-- The rounding interval of `significand · 2 ^ exponent`.  Below a power of two the neighbour is only
half as far away, except where the numbers become subnormal. -/
def Interval.around (significand : Nat) (exponent : Int) : Interval where
  low := if significand = 2 ^ fractionBits ∧ leastExponent < exponent
    then 4 * significand - 1 else 4 * significand - 2
  value := 4 * significand
  high := 4 * significand + 2
  exponent := exponent - 2
  closed := significand % 2 = 0

/-- The candidate on the grid of step `10 ^ p`, if one of the value's two neighbours there lies in the
interval.  Both sides are multiplied out, so that only naturals are compared. -/
def Interval.onGrid (i : Interval) (tie : Tie) (p : Int) : Option Nat :=
  let scale := 2 ^ i.exponent.toNat * 10 ^ (-p).toNat
  let step := 2 ^ (-i.exponent).toNat * 10 ^ p.toNat
  let inside (c : Nat) : Bool :=
    if i.closed then i.low * scale ≤ c * step && c * step ≤ i.high * scale
    else i.low * scale < c * step && c * step < i.high * scale
  let below := i.value * scale / step
  let twice := 2 * (i.value * scale % step)
  match inside below, inside (below + 1) with
  | true, true =>
    if twice < step then some below
    else if step < twice then some (below + 1)
    else match tie with
      | .up => some (below + 1)
      | .even => some (below + below % 2)
  | true, false => some below
  | false, true => some (below + 1)
  | false, false => none

/-- Walks to finer grids until one has a hit. -/
def Interval.search (i : Interval) (tie : Tie) : Nat → Int → Nat × Int
  | 0, p => (0, p)
  | fuel + 1, p =>
    match i.onGrid tie p with
    | some digits => (digits, p)
    | none => i.search tie fuel (p - 1)

/-- An exponent of ten that no double with this highest bit reaches. -/
def gridAbove (significand : Nat) (exponent : Int) : Int :=
  ((significand.log2 : Int) + 1 + exponent) * 30103 / 100000 + 2

/-- The digits `d` and exponent `p` such that `d · 10 ^ p` is the shortest decimal that reads back as
the positive number `significand · 2 ^ exponent`.  Seventeen digits always suffice, so the search needs
no more than twenty grids. -/
def shortest (tie : Tie) (significand : Nat) (exponent : Int) : Nat × Int :=
  (Interval.around significand exponent).search tie 24 (gridAbove significand exponent)

example : shortest .even 1 leastExponent = (5, -324) := by decide +kernel

/-- A half-way case: `2 ^ -25` lies midway between two decimals of seventeen digits. -/
example : shortest .up (2 ^ 52) (-77) = (29802322387695313, -24) ∧
    shortest .even (2 ^ 52) (-77) = (29802322387695312, -24) := by decide +kernel

end Piecework.Number
