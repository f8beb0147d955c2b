/-
# Piecework.Number.Reader — reading decimal text as a number.

A decimal has an optional sign, digits with at most one point and at least one digit, and an optional
exponent; the words for infinity and for no number are read in any case.  The result is the nearest
double.  Unsigned integers have an optional plus sign, ASCII digits only, and a bound.
-/
import Piecework.Number.Binary64

namespace Piecework.Number

/-- The value of one ASCII digit. -/
def digitValue (c : Char) : Nat := c.toNat - '0'.toNat

/-- The number that a run of digits stands for, continuing from `start`. -/
def foldDigits (start : Nat) (digits : List Char) : Nat :=
  digits.foldl (fun n c => 10 * n + digitValue c) start

/-- Splits a sign from the front: whether it is a minus, and the rest. -/
def splitSign : List Char → Bool × List Char
  | '-' :: rest => (true, rest)
  | '+' :: rest => (false, rest)
  | text => (false, text)

/-- Splits a decimal without sign and exponent off: its digits as one number, the number of places
after the point, and the rest.  There must be a digit somewhere. -/
def readMantissa (text : List Char) : Option (Nat × Nat × List Char) :=
  let whole := text.takeWhile Char.isDigit
  let rest := text.dropWhile Char.isDigit
  match rest with
  | '.' :: tail =>
    let places := tail.takeWhile Char.isDigit
    if whole.isEmpty && places.isEmpty then none
    else some (foldDigits (foldDigits 0 whole) places, places.length, tail.dropWhile Char.isDigit)
  | _ => if whole.isEmpty then none else some (foldDigits 0 whole, 0, rest)

/-- The exponent that ends a decimal: nothing, or an `e` with a signed run of digits. -/
def readExponent : List Char → Option Int
  | [] => some 0
  | c :: rest =>
    if c = 'e' ∨ c = 'E' then
      let (negative, digits) := splitSign rest
      if digits.isEmpty || !digits.all Char.isDigit then none
      else
        let n : Int := foldDigits 0 digits
        some (if negative then -n else n)
    else none

/-- The text with ASCII letters in lower case. -/
def lowered (text : List Char) : List Char := text.map Char.toLower

/-- Reads decimal text as the nearest double. -/
def readFloat? (text : List Char) : Option Float :=
  let (negative, rest) := splitSign text
  let word := lowered rest
  if word = "inf".toList ∨ word = "infinity".toList then
    some (.ofBits (.ofNat (infinityBits + if negative then 2 ^ 63 else 0)))
  else if word = "nan".toList then some (.ofBits (.ofNat (infinityBits + 2 ^ 51)))
  else do
    let (digits, places, tail) ← readMantissa rest
    let exponent ← readExponent tail
    return ofDecimal negative digits (exponent - places)

/-- Reads an unsigned integer below `bound`. -/
def readUnsigned? (bound : Nat) (text : List Char) : Option Nat :=
  let digits := match text with
    | '+' :: rest => rest
    | _ => text
  if digits.isEmpty || !digits.all Char.isDigit then none
  else
    let n := foldDigits 0 digits
    if n < bound then some n else none

example : readFloat? "+.5e1".toList = some 5 := by decide

example : readFloat? "1.e".toList = none ∧ readFloat? ".".toList = none := by decide

example : readUnsigned? (2 ^ 16) "65536".toList = none ∧
    readUnsigned? (2 ^ 16) "+080".toList = some 80 := by decide

end Piecework.Number
