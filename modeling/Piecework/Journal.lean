/-
# Piecework.Journal — the lines that components write about their work.

A line has a severity and a text.  Components do not write anywhere: what they have to say is computed
from what they did, as a list of lines, and the outer layer decides where it goes.
-/
import Piecework.Number.Layout

namespace Piecework

/-- How much a line matters. -/
inductive Severity where
  | error
  | warn
  | info
  | debug
deriving DecidableEq, Repr

/-- The word for a severity. -/
def Severity.name : Severity → String
  | .error => "ERROR"
  | .warn => "WARN"
  | .info => "INFO"
  | .debug => "DEBUG"

/-- One line of the journal. -/
structure Line where
  severity : Severity
  message : String
deriving DecidableEq, Repr

namespace Line

/-- The line with its severity in front. -/
def text (line : Line) : String := line.severity.name ++ " " ++ line.message

/-- A line about a failure. -/
def error (message : String) : Line := ⟨.error, message⟩

/-- A line about something unusual. -/
def warn (message : String) : Line := ⟨.warn, message⟩

/-- A line about something that users follow. -/
def info (message : String) : Line := ⟨.info, message⟩

/-- A line for those who look for a fault. -/
def debug (message : String) : Line := ⟨.debug, message⟩

end Line

namespace Journal

/-- Numbers in lines: a point on whole numbers, and an exponent from `1e16` up and below `1e-4`. -/
def number : Number.Layout where
  tie := .up
  positional := some (-4, 16)
  pointZero := true
  exponentPlus := false
  nan := "NaN"
  infinite := "inf"
  negativeInfinite := "-inf"

/-- A value that may be absent. -/
def optional (render : α → String) : Option α → String
  | none => "None"
  | some a => "Some(" ++ render a ++ ")"

end Journal

end Piecework
