/-
# Piecework.Instant — points in time.

An instant is a second counted from the start of 1970 with nanoseconds in it.  A leap second is kept as
a second with a billion nanoseconds or more, at the end of its minute.  Instants lie in the years from
-262143 to 262142; that is part of the type, so adding a span can fail, and nothing else can.
-/
import Piecework.Calendar
import Piecework.Span

namespace Piecework

/-- The seconds of a day. -/
def secondsPerDay : Int := 86400

/-- The first second of the calendar. -/
def firstSecond : Int := -8334601228800

/-- The last second of the calendar. -/
def lastSecond : Int := 8210266876799

/-- A point in time. -/
structure Instant where
  /-- Seconds since the start of 1970. -/
  second : Int
  /-- Nanoseconds in the second; from a billion on they lie in a leap second. -/
  nano : Nat
  first_le : firstSecond ≤ second := by decide
  le_last : second ≤ lastSecond := by decide
  nano_lt : nano < 2000000000 := by decide
  /-- A leap second ends its minute. -/
  leap : 1000000000 ≤ nano → second % 60 = 59 := by decide
deriving DecidableEq, Repr

namespace Instant

/-- The instant with these parts, if there is one. -/
def ofParts? (second : Int) (nano : Nat) : Option Instant :=
  if h : firstSecond ≤ second ∧ second ≤ lastSecond ∧ nano < 2000000000 ∧
      (1000000000 ≤ nano → second % 60 = 59) then
    some ⟨second, nano, h.1, h.2.1, h.2.2.1, h.2.2.2⟩
  else none

/-- The start of 1970. -/
def epoch : Instant := { second := 0, nano := 0 }

instance : Inhabited Instant := ⟨epoch⟩

/-- The instant so many milliseconds after the start of 1970. -/
def ofMillis? (millis : Int) : Option Instant :=
  ofParts? (millis / 1000) ((millis % 1000).toNat * 1000000)

/-- Whole milliseconds since the start of 1970. -/
def toMillis (t : Instant) : Int := t.second * 1000 + (t.nano / 1000000 : Nat)

/-- One instant is not after another: by the second, then by the nanoseconds in it. -/
protected def le (a b : Instant) : Bool := a.second < b.second || (a.second = b.second && a.nano ≤ b.nano)

instance : LE Instant := ⟨fun a b => a.le b = true⟩

instance (a b : Instant) : Decidable (a ≤ b) := inferInstanceAs (Decidable (a.le b = true))

/-- The instant so many nanoseconds later, if the calendar has it.  A leap second is left as soon as the
sum goes beyond its end. -/
def later? (t : Instant) (nanos : Nat) : Option Instant :=
  if 1000000000 ≤ t.nano ∧ t.nano + nanos < 2000000000 then ofParts? t.second (t.nano + nanos)
  else
    let sum := t.nano % 1000000000 + nanos
    ofParts? (t.second + (sum / 1000000000 : Nat)) (sum % 1000000000)

example : Date.ofDayNumber (firstSecond / secondsPerDay + Date.epochDay) = ⟨-262143, 1, 1⟩ := by
  decide

example : Date.ofDayNumber (lastSecond / secondsPerDay + Date.epochDay) = ⟨262142, 12, 31⟩ := by
  decide

end Instant

end Piecework
