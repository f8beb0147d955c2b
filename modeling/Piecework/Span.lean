/-
# Piecework.Span — lengths of time.

Operation times, lease timeouts and polling intervals are counts of seconds in a 64-bit word with
nanoseconds in the second; settings and the wire format count them in milliseconds.  Log lines show them
in the largest of the units from seconds down to nanoseconds that leaves no leading zero.
-/
import Piecework.Number.Layout

namespace Piecework

/-- A length of time. -/
structure Span where
  nanos : Nat
  /-- A 64-bit word holds the seconds. -/
  nanos_lt : nanos < 2 ^ 64 * 1000000000
deriving DecidableEq, Repr

namespace Span

/-- A span of so many nanoseconds. -/
def ofNanos (n : Nat) : Span := ⟨n % (2 ^ 64 * 1000000000), Nat.mod_lt n (by decide)⟩

/-- A span of so many milliseconds, counted in a 64-bit word. -/
def ofMillis (n : Nat) : Span := .ofNanos (n % 2 ^ 64 * 1000000)

/-- The number of whole milliseconds. -/
def toNat (s : Span) : Nat := s.nanos / 1000000

@[simp]
theorem nanos_ofMillis (n : Nat) : (ofMillis n).nanos = n % 2 ^ 64 * 1000000 := by
  simp only [ofMillis, ofNanos]
  omega

/-- The sum of two spans, or the longest span there is. -/
def plus (a b : Span) : Span := ⟨min (a.nanos + b.nanos) (2 ^ 64 * 1000000000 - 1), by omega⟩

/-! ## Text -/

/-- The digits of a fraction of `10 ^ width` parts, without trailing zeros. -/
def fraction (width n : Nat) : List Char :=
  let digits := Number.decimal n
  let padded := List.replicate (width - digits.length) '0' ++ digits
  (padded.reverse.dropWhile (· = '0')).reverse

/-- So many whole units, and a fraction of `10 ^ width` parts of one. -/
def textIn (unit : List Char) (width whole part : Nat) : String :=
  let fraction := match fraction width part with
    | [] => []
    | digits => '.' :: digits
  .ofList (Number.decimal whole ++ fraction ++ unit)

/-- How log lines show a span. -/
def text (s : Span) : String :=
  let n := s.nanos
  if 1000000000 ≤ n then textIn ['s'] 9 (n / 1000000000) (n % 1000000000)
  else if 1000000 ≤ n then textIn ['m', 's'] 6 (n / 1000000) (n % 1000000)
  else if 1000 ≤ n then textIn ['µ', 's'] 3 (n / 1000) (n % 1000)
  else textIn ['n', 's'] 0 n 0

example : (ofMillis 61001).text = "61.001s" ∧ (ofMillis 999).text = "999ms" ∧
    (ofNanos 1500000).text = "1.5ms" ∧ (ofNanos 1020).text = "1.02µs" ∧ (ofNanos 0).text = "0ns" := by decide

end Span

end Piecework
