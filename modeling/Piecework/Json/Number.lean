/-
# Piecework.Json.Number — numbers of JSON.

Numbers are written with the fewest digits that read back, whole ones with a point, and with an exponent
from `1e+16` up and below `1e-5`.

Reading keeps integers that fit into 64 bits.  For all others it collects as many digits as fit into a
64-bit word, and scales that word by one power of ten in double arithmetic.  This is quick, and may
miss the nearest double by a bit; a power that cannot be reached in one step is approached by factors
of `1e308`.
-/
import Piecework.Json.Text
import Piecework.Number.Layout
import Piecework.Number.Reader

namespace Piecework.Json

/-! ## Writing -/

/-- The layout of numbers in JSON.  What is no number is written as `null`. -/
def numberLayout : Number.Layout where
  tie := .even
  positional := some (-5, 16)
  pointZero := true
  exponentPlus := true
  nan := "null"
  infinite := "null"
  negativeInfinite := "null"

/-- A double as JSON. -/
def writeFloat (x : Float) : List Char := numberLayout.characters x

/-! ## Reading -/

/-- A number as it is read. -/
inductive Numeral where
  /-- An integer that fits into 64 bits, with a sign if negative. -/
  | integer (value : Int)
  /-- Any other number. -/
  | float (value : Float)
deriving DecidableEq

/-- Whether another digit makes the word too large. -/
def overflows (word digit : Nat) : Bool := 2 ^ 64 ≤ word * 10 + digit

/-- A power of ten as a double. -/
def powerOfTen (n : Nat) : Float := Number.ofDecimal false 1 n

/-- Scales a word by a power of ten.  Four factors of `1e308` bring every word down to zero. -/
def scale : Nat → Float → Int → Option Float
  | 0, f, _ => some f
  | fuel + 1, f, exponent =>
    if exponent.natAbs ≤ 308 then
      if 0 ≤ exponent then
        let g := f * powerOfTen exponent.toNat
        if Number.isFinite g then some g else none
      else some (f / powerOfTen exponent.natAbs)
    -- Zero stays zero, so no power needs to be formed.
    else if f == 0 then some f
    else if 0 ≤ exponent then none
    else scale fuel (f / powerOfTen 308) (exponent + 308)

/-- The number made of a word, a power of ten and a sign. -/
def assemble (negative : Bool) (word : Nat) (exponent : Int) (rest : List Char) : Reading Numeral :=
  match scale 5 (Number.ofDecimal false word 0) exponent with
  | some f => .ok (.float (if negative then -f else f), rest)
  | none => .error (.here .outOfRange rest)

/-- The digits of an exponent, as long as the exponent fits into 31 bits; otherwise `none` and the
rest behind the digit that made it too large. -/
def exponentDigits : Nat → List Char → Option Nat × List Char
  | n, [] => (some n, [])
  | n, c :: rest =>
    if c.isDigit then
      let next := n * 10 + Number.digitValue c
      if 2 ^ 31 ≤ next then (none, rest) else exponentDigits next rest
    else (some n, c :: rest)

/-- Reads an exponent from behind its `e` and makes the number. -/
def readScaled (negative : Bool) (word : Nat) (start : Int) (text : List Char) : Reading Numeral :=
  let (down, text) := Number.splitSign text
  match text with
  | [] => .error (.here .valueUnfinished [])
  | c :: rest =>
    if c.isDigit then
      match exponentDigits (Number.digitValue c) rest with
      | (some n, rest) => assemble negative word (if down then start - n else start + n) rest
      -- Such an exponent takes every word but zero beyond the largest double, or all of them to zero.
      | (none, rest) =>
        if word ≠ 0 ∧ ¬ down then .error (.here .outOfRange rest)
        else .ok (.float (if negative then -0.0 else 0), rest.dropWhile Char.isDigit)
    else .error (.past .invalidNumber text)

/-- Makes the number, after an exponent if one follows. -/
def finishNumber (negative : Bool) (word : Nat) (exponent : Int) (text : List Char) : Reading Numeral :=
  match text with
  | c :: rest =>
    if c = 'e' ∨ c = 'E' then readScaled negative word exponent rest
    else assemble negative word exponent text
  | [] => assemble negative word exponent text

/-- Collects places after the point while the word has room; further places are passed over. -/
def readPlaces (negative : Bool) (word : Nat) (exponent : Int) (any : Bool) : List Char → Reading Numeral
  | [] => if any then finishNumber negative word exponent [] else .error (.here .valueUnfinished [])
  | c :: rest =>
    if c.isDigit then
      if overflows word (Number.digitValue c) then
        finishNumber negative word exponent (rest.dropWhile Char.isDigit)
      else readPlaces negative (word * 10 + Number.digitValue c) (exponent - 1) true rest
    else if any then finishNumber negative word exponent (c :: rest)
    else .error (.past .invalidNumber (c :: rest))

/-- Reads on behind the whole digits of a number that is no integer. -/
def readTail (negative : Bool) (word : Nat) (exponent : Int) (text : List Char) : Reading Numeral :=
  match text with
  | '.' :: rest => readPlaces negative word exponent false rest
  | _ => finishNumber negative word exponent text

/-- The number made of whole digits that fit into a word, unless a point or an exponent follows.  A
negative zero and what lies below the least signed integer are no integers. -/
def finishInteger (negative : Bool) (word : Nat) (text : List Char) : Reading Numeral :=
  let whole : Reading Numeral :=
    if ¬ negative then .ok (.integer word, text)
    else if word = 0 ∨ 2 ^ 63 < word then .ok (.float (-(Number.ofDecimal false word 0)), text)
    else .ok (.integer (-word), text)
  match text with
  | c :: _ => if c = '.' ∨ c = 'e' ∨ c = 'E' then readTail negative word 0 text else whole
  | [] => whole

/-- Collects whole digits while the word has room; each further one counts as a power of ten. -/
def readWhole (negative : Bool) (word : Nat) : List Char → Reading Numeral
  | [] => finishInteger negative word []
  | c :: rest =>
    if c.isDigit then
      if overflows word (Number.digitValue c) then
        let more := rest.takeWhile Char.isDigit
        readTail negative word (more.length + 1) (rest.dropWhile Char.isDigit)
      else readWhole negative (word * 10 + Number.digitValue c) rest
    else finishInteger negative word (c :: rest)

/-- Reads a number from behind its sign. -/
def readUnsigned (negative : Bool) (text : List Char) : Reading Numeral :=
  match text with
  | [] => .error (.here .valueUnfinished [])
  | c :: rest =>
    -- No digit may follow a leading zero.
    if c = '0' then
      match rest with
      | d :: _ => if d.isDigit then .error (.past .invalidNumber rest) else finishInteger negative 0 rest
      | [] => finishInteger negative 0 rest
    else if c.isDigit then readWhole negative (Number.digitValue c) rest
    else .error (.past .invalidNumber text)

/-- Whether a number starts here. -/
def startsNumber (c : Char) : Bool := c = '-' || c.isDigit

/-- Reads a number. -/
def readNumber (text : List Char) : Reading Numeral :=
  match text with
  | '-' :: rest => readUnsigned true rest
  | _ => readUnsigned false text

/-- The value of a number as a double. -/
def Numeral.toFloat : Numeral → Float
  | .integer value => Number.ofDecimal (value < 0) value.natAbs 0
  | .float value => value

/-- How a message shows a number. -/
def Numeral.found : Numeral → Found
  | .integer value => .integer value
  | .float value => .float (.ofList (writeFloat value))

end Piecework.Json
