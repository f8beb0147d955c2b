/-
# Piecework.Instant.Text — instants as date and time of day.

An instant is written in the RFC 3339 form in universal time, with as many groups of three decimals as
it needs; a leap second is second 60 of its minute.  Reading is more liberal: blanks may stand before
numbers and separators, a signed year may have any number of digits, further decimals are passed over,
and any offset below a day is taken into account.
-/
import Piecework.Instant
import Piecework.Number.Reader
import Piecework.Text.Blank

namespace Piecework.Instant

/-! ## Writing -/

/-- A number with at least so many digits. -/
def padded (width n : Nat) : List Char :=
  let digits := Number.decimal n
  List.replicate (width - digits.length) '0' ++ digits

/-- A year: four digits, with a sign and maybe more digits when it does not fit. -/
def yearText (year : Int) : List Char :=
  if 0 ≤ year ∧ year ≤ 9999 then padded 4 year.toNat
  else (if year < 0 then '-' else '+') :: padded 4 year.natAbs

/-- The decimals of a second in groups of three. -/
def fractionText (nano : Nat) : List Char :=
  if nano = 0 then []
  else if nano % 1000000 = 0 then '.' :: padded 3 (nano / 1000000)
  else if nano % 1000 = 0 then '.' :: padded 6 (nano / 1000)
  else '.' :: padded 9 nano

/-- The date in universal time. -/
def date (t : Instant) : Date := .ofDayNumber (t.second / secondsPerDay + Date.epochDay)

/-- Date and time of day with the given separator between them. -/
def clockText (separator : Char) (t : Instant) : List Char :=
  let date := t.date
  let ofDay := (t.second % secondsPerDay).toNat
  -- A leap second shows as second 60.
  let extra := if 1000000000 ≤ t.nano then 1 else 0
  yearText date.year ++ '-' :: padded 2 date.month ++ '-' :: padded 2 date.day
    ++ separator :: padded 2 (ofDay / 3600) ++ ':' :: padded 2 (ofDay / 60 % 60)
    ++ ':' :: padded 2 (ofDay % 60 + extra) ++ fractionText (t.nano % 1000000000)

/-- The RFC 3339 form. -/
def text (t : Instant) : String := .ofList (clockText 'T' t ++ ['Z'])

/-- The form for people. -/
def display (t : Instant) : String := .ofList (clockText ' ' t) ++ " UTC"

/-! ## Reading -/

/-- Why a text is no instant. -/
inductive Fault where
  | outOfRange
  | impossible
  | invalid
  | tooShort
  | tooLong
deriving DecidableEq, Repr

/-- The wording of a fault. -/
def Fault.message : Fault → String
  | .outOfRange => "input is out of range"
  | .impossible => "no possible date and time matching input"
  | .invalid => "input contains invalid characters"
  | .tooShort => "premature end of input"
  | .tooLong => "trailing input"

/-- What reading a part yields: its value and the rest of the text. -/
abbrev Part (α : Type) := Except Fault (α × List Char)

/-- Reads a run of digits, at most so many if there is a limit. -/
def readNumber (limit : Option Nat) (text : List Char) : Part Nat :=
  let run := text.takeWhile Char.isDigit
  -- What goes beyond the limit is left to the next reader, digits or not.
  let digits := match limit with
    | some n => run.take n
    | none => run
  if text.isEmpty then .error .tooShort
  else if digits.isEmpty then .error .invalid
  else
    let n := Number.foldDigits 0 digits
    if n < 2 ^ 63 then .ok (n, text.drop digits.length) else .error .outOfRange

/-- Reads a number that has to lie in a range, after blanks. -/
def readField (low high : Nat) (text : List Char) : Part Nat :=
  match readNumber (some 2) (Text.skipBlanks text) with
  | .error fault => .error fault
  | .ok (n, rest) => if low ≤ n ∧ n ≤ high then .ok (n, rest) else .error .outOfRange

/-- Reads a year after blanks. -/
def readYear (text : List Char) : Part Int :=
  let signed (sign : Int) (rest : List Char) : Part Int :=
    match readNumber none rest with
    | .error fault => .error fault
    | .ok (n, rest) => .ok (sign * n, rest)
  let year := match Text.skipBlanks text with
    | '-' :: rest => signed (-1) rest
    | '+' :: rest => signed 1 rest
    | rest =>
      match readNumber (some 4) rest with
      | .error fault => .error fault
      | .ok (n, rest) => .ok ((n : Int), rest)
  match year with
  | .error fault => .error fault
  | .ok (y, rest) => if -2 ^ 31 ≤ y ∧ y < 2 ^ 31 then .ok (y, rest) else .error .outOfRange

/-- Reads a separator after blanks. -/
def readMark (mark : Char) (text : List Char) : Except Fault (List Char) :=
  match Text.skipBlanks text with
  | [] => .error .tooShort
  | c :: rest => if c = mark then .ok rest else .error .invalid

/-- Reads the decimals of a second as nanoseconds, if a point follows. -/
def readFraction (text : List Char) : Part Nat :=
  match text with
  | '.' :: rest =>
    match readNumber (some 9) rest with
    | .error fault => .error fault
    -- Places that are missing count as zeros, and those behind the ninth do not count.
    | .ok (n, more) =>
      .ok (n * 10 ^ (9 - (rest.length - more.length)), more.dropWhile Char.isDigit)
  | _ => .ok (0, text)

/-- Reads two digits where at least two bytes must be left. -/
def readPair (text : List Char) : Except Fault (Nat × Nat × List Char) :=
  match text with
  | a :: b :: rest =>
    if a.isDigit && b.isDigit then .ok (Number.digitValue a, Number.digitValue b, rest)
    else .error .invalid
  -- One character of two bytes is long enough, but it is no pair of digits.
  | [a] => if a.utf8Size < 2 then .error .tooShort else .error .invalid
  | [] => .error .tooShort

/-- Whether three letters stand for universal time. -/
def isUniversal (text : List Char) : Bool := Number.lowered (text.take 3) = ['u', 't', 'c']

/-- Reads an offset from universal time in seconds. -/
def readOffset (text : List Char) : Part Int :=
  if isUniversal text then .ok (0, text.drop 3)
  else
    match text with
    | [] => .error .tooShort
    | c :: rest =>
      if c = 'Z' ∨ c = 'z' then .ok (0, rest)
      else if c = '+' ∨ c = '-' ∨ c = '−' then
        match readPair rest with
        | .error fault => .error fault
        | .ok (h, k, rest) =>
          match readPair (rest.dropWhile fun c => c = ':' || Text.isBlank c) with
          | .error fault => .error fault
          | .ok (m, l, rest) =>
            if 6 ≤ m then .error .outOfRange
            else
              let seconds : Int := (h * 10 + k) * 3600 + (m * 10 + l) * 60
              .ok (if c = '+' then seconds else -seconds, rest)
      else .error .invalid

/-- The first and the last year of the calendar. -/
def isCalendarYear (year : Int) : Bool := -262143 ≤ year && year ≤ 262142

/-- The instant of a date and a time of day at an offset. -/
def ofLocal (date : Date) (hour minute second nano : Nat) (offset : Int) : Except Fault Instant :=
  if ¬ (isCalendarYear date.year ∧ date.isValid) ∨ secondsPerDay ≤ offset.natAbs then .error .outOfRange
  else
    -- The leap second is the second before it with another billion nanoseconds.
    let leap := second = 60
    let ofDay : Int := hour * 3600 + minute * 60 + (if leap then 59 else second)
    let day := date.dayNumber - Date.epochDay
    match ofParts? (day * secondsPerDay + ofDay - offset) (if leap then nano + 1000000000 else nano) with
    | some t => .ok t
    | none => .error .impossible

/-- Reads an instant. -/
def ofText (text : String) : Except Fault Instant := do
  let (year, rest) ← readYear text.toList
  let rest ← readMark '-' rest
  let (month, rest) ← readField 1 12 rest
  let rest ← readMark '-' rest
  let (day, rest) ← readField 1 31 rest
  let rest ← match rest with
    | [] => .error .tooShort
    | c :: rest => if c = 't' ∨ c = 'T' ∨ c = ' ' then .ok rest else .error .invalid
  let (hour, rest) ← readField 0 23 rest
  let rest ← readMark ':' rest
  let (minute, rest) ← readField 0 59 rest
  let rest ← readMark ':' rest
  let (second, rest) ← readField 0 60 rest
  let (nano, rest) ← readFraction rest
  let (offset, rest) ← readOffset (Text.skipBlanks rest)
  if (Text.skipBlanks rest).isEmpty then ofLocal ⟨year, month, day⟩ hour minute second nano offset
  else .error .tooLong

example : (ofText "2024-02-29T23:59:60.5+01:00").toOption.map Instant.text =
    some "2024-02-29T22:59:60.500Z" := by decide

end Piecework.Instant
