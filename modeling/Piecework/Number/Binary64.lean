/-
# Piecework.Number.Binary64 — the value behind a 64-bit pattern, and the pattern nearest to a value.

A double is read once into a sign and a pair `significand · 2 ^ exponent`, and everything that prints
or reads numbers goes on in `Nat` and `Int`.  In the other direction `nearest num den` is the pattern
of the double nearest to the positive ratio `num / den`, a tie going to the even significand; values
beyond the largest double become the pattern of infinity.  Both directions are integer arithmetic on
the bits, so that nothing here depends on how a library rounds.
-/
import Piecework.Arithmetic

namespace Piecework.Number

/-- What a bit pattern stands for. -/
inductive Meaning where
  /-- Any of the patterns that are no number. -/
  | nan
  /-- An infinity with its sign. -/
  | infinite (negative : Bool)
  /-- The number `± significand · 2 ^ exponent`. -/
  | finite (negative : Bool) (significand : Nat) (exponent : Int)
deriving DecidableEq, Repr

/-- The number of bits in the fraction field. -/
def fractionBits : Nat := 52

/-- The exponent of the least significant bit of a subnormal number. -/
def leastExponent : Int := -1074

/-- The magnitude part of the pattern of infinity. -/
def infinityBits : Nat := 2047 * 2 ^ fractionBits

/-- Reads the three fields of a pattern. -/
def Meaning.ofBits (bits : UInt64) : Meaning :=
  let word := bits.toNat
  let negative := decide (2 ^ 63 ≤ word)
  let field := word / 2 ^ fractionBits % 2048
  let fraction := word % 2 ^ fractionBits
  if field = 2047 then
    if fraction = 0 then .infinite negative else .nan
  -- Subnormal numbers share the exponent of the least normal ones, without their leading bit.
  else if field = 0 then .finite negative fraction leastExponent
  else .finite negative (2 ^ fractionBits + fraction) (leastExponent + (field - 1 : Nat))

/-- What a double stands for. -/
def meaning (x : Float) : Meaning := .ofBits x.toBits

/-- A double is finite when it is neither an infinity nor no number. -/
def isFinite (x : Float) : Bool :=
  match meaning x with
  | .finite .. => true
  | _ => false

/-- The quotient of two naturals rounded to the nearest integer, a tie going to the even one. -/
def roundRatio (num den : Nat) : Nat :=
  let quotient := num / den
  let twice := 2 * (num % den)
  if twice < den then quotient
  else if den < twice then quotient + 1
  else quotient + quotient % 2

/-- The greatest `e` with `2 ^ e ≤ num / den`, for positive `num` and `den`. -/
def floorLog2 (num den : Nat) : Int :=
  let guess : Int := (num.log2 : Int) - den.log2
  -- The quotient lies in this binade or in the one below.
  if den * 2 ^ guess.toNat ≤ num * 2 ^ (-guess).toNat then guess else guess - 1

/-- The magnitude pattern of the double nearest to `num / den`, for positive `num` and `den`.  The
quotient is taken on the grid of the binade that holds it.  A significand that rounds up to the next
power of two carries into the exponent field by itself, which is the right result there too. -/
def nearest (num den : Nat) : UInt64 :=
  let exponent := max (floorLog2 num den - fractionBits) leastExponent
  let significand := roundRatio (num * 2 ^ (-exponent).toNat) (den * 2 ^ exponent.toNat)
  let word := (exponent - leastExponent).toNat * 2 ^ fractionBits + significand
  .ofNat (min word infinityBits)

/-- The double nearest to `± digits · 10 ^ exponent`.  An exponent that puts the leading digit far
outside the range of doubles decides the result by itself, so that no huge power is ever formed. -/
def ofDecimal (negative : Bool) (digits : Nat) (exponent : Int) : Float :=
  -- The factor is the decimal logarithm of two.
  let leading : Int := exponent + (digits.log2 : Int) * 30103 / 100000
  let magnitude : UInt64 :=
    if digits = 0 then 0
    else if 400 < leading then .ofNat infinityBits
    else if leading < -400 then 0
    else nearest (digits * 10 ^ exponent.toNat) (10 ^ (-exponent).toNat)
  .ofBits (if negative then magnitude + 0x8000000000000000 else magnitude)

example : ofDecimal false 1 (-1) = 0.1 := by decide +kernel

example : ofDecimal true 0 5 = -0.0 := by decide +kernel

/-- Half of the least subnormal is a tie and goes to the even neighbour, which is zero. -/
example : nearest 1 (2 ^ 1075) = 0 := by decide +kernel

end Piecework.Number
