/-
# Piecework.Number.Layout — how the digits of a double are set out as text.

The digits come from `Piecework.Number.shortest`; what is left to a text format is where positional
notation ends, whether a whole number keeps a point, how an exponent is marked, and what stands for
the values that are no numbers.  A format is one `Layout` record, and each module that writes numbers
has its own.
-/
import Piecework.Number.Shortest

namespace Piecework.Number

/-- The decisions of one text format for doubles. -/
structure Layout where
  /-- Which way the last digit goes at an exact tie. -/
  tie : Tie
  /-- The decimal exponents, from the first up to but without the second, that are written without an
  exponent; `none` means all of them. -/
  positional : Option (Int × Int)
  /-- Whether a whole number in positional notation is followed by `.0`. -/
  pointZero : Bool
  /-- Whether a positive exponent carries a plus sign. -/
  exponentPlus : Bool
  nan : String
  infinite : String
  negativeInfinite : String

/-- The decimal digits of a natural number. -/
def decimal (n : Nat) : List Char := Nat.toDigits 10 n

/-- `digits · 10 ^ exponent` without an exponent. -/
def positionalText (pointZero : Bool) (digits : List Char) (exponent : Int) : List Char :=
  if 0 ≤ exponent then
    digits ++ List.replicate exponent.toNat '0' ++ (if pointZero then ['.', '0'] else [])
  else
    let places := (-exponent).toNat
    -- The point falls between two digits, or in front of all of them.
    if places < digits.length then
      digits.take (digits.length - places) ++ '.' :: digits.drop (digits.length - places)
    else '0' :: '.' :: List.replicate (places - digits.length) '0' ++ digits

/-- `digits · 10 ^ exponent` with one digit before the point and an exponent behind. -/
def scientificText (plus : Bool) (digits : List Char) (leading : Int) : List Char :=
  let fraction := match digits.drop 1 with
    | [] => []
    | rest => '.' :: rest
  let mark := if leading < 0 then ['e', '-'] else if plus then ['e', '+'] else ['e']
  digits.take 1 ++ fraction ++ mark ++ decimal leading.natAbs

/-- Whether a number whose leading digit stands for `10 ^ leading` is written without an exponent. -/
def Layout.isPositional (l : Layout) (leading : Int) : Bool :=
  match l.positional with
  | none => true
  | some (first, beyond) => first ≤ leading && leading < beyond

/-- The text of a finite number without its sign. -/
def Layout.magnitude (l : Layout) (significand : Nat) (exponent : Int) : List Char :=
  if significand = 0 then '0' :: (if l.pointZero then ['.', '0'] else [])
  else
    let (digits, p) := shortest l.tie significand exponent
    let text := decimal digits
    let leading := p + (text.length - 1 : Nat)
    if l.isPositional leading then positionalText l.pointZero text p
    else scientificText l.exponentPlus text leading

/-- The characters of a double in this format. -/
def Layout.characters (l : Layout) (x : Float) : List Char :=
  match meaning x with
  | .nan => l.nan.toList
  | .infinite false => l.infinite.toList
  | .infinite true => l.negativeInfinite.toList
  | .finite negative significand exponent =>
    (if negative then ['-'] else []) ++ l.magnitude significand exponent

/-- The text of a double in this format. -/
def Layout.text (l : Layout) (x : Float) : String := .ofList (l.characters x)

/-- Numbers in messages and arguments: never an exponent, and no point on a whole number. -/
def plain : Layout where
  tie := .up
  positional := none
  pointZero := false
  exponentPlus := false
  nan := "NaN"
  infinite := "inf"
  negativeInfinite := "-inf"

example : plain.text 1e21 = "1000000000000000000000" := by decide

example : plain.text (-0.0) = "-0" := by decide

example : plain.text 0.000015 = "0.000015" := by decide

end Piecework.Number
