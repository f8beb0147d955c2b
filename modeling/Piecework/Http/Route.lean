/-
# Piecework.Http.Route — the paths that are served.

Paths are compared as they are written.  The last segment of the path of one expression is its identity;
there, a percent sign with two hexadecimal digits stands for a byte, and the bytes are UTF-8.
-/
import Piecework.Http.Message

namespace Piecework.Http

/-! ## Percent signs -/

/-- The value of a hexadecimal digit. -/
def hexDigit? (b : UInt8) : Option UInt8 :=
  -- In this order: 0 to 9, A to F, and a to f.
  if 48 ≤ b ∧ b ≤ 57 then some (b - 48)
  else if 65 ≤ b ∧ b ≤ 70 then some (b - 55)
  else if 97 ≤ b ∧ b ≤ 102 then some (b - 87)
  else none

/-- The byte that two hexadecimal digits stand for. -/
def hexByte? (high low : UInt8) : Option UInt8 := do return 16 * (← hexDigit? high) + (← hexDigit? low)

/-- The bytes that a segment stands for.  A percent sign without two hexadecimal digits stands for
itself. -/
def percentDecode : List UInt8 → List UInt8
  | 37 :: high :: low :: rest =>
    match hexByte? high low with
    | some byte => byte :: percentDecode rest
    | none => 37 :: percentDecode (high :: low :: rest)
  | byte :: rest => byte :: percentDecode rest
  | [] => []

/-- The text that a segment stands for, if its bytes are UTF-8. -/
def decodeSegment (segment : List Char) : Option String :=
  String.fromUTF8? ⟨(percentDecode (String.ofList segment).toUTF8.data.toList).toArray⟩

/-! ## Routes -/

/-- What a path leads to. -/
inductive Route where
  | health
  | calculate
  | expressions
  /-- One expression, with the segment that names it. -/
  | expression (segment : List Char)
  | nextTask
  | taskResult
deriving DecidableEq, Repr

namespace Route

/-- The path of all expressions. -/
def expressionsPath : String := "/api/v1/expressions"

/-- The segment behind the path of all expressions. -/
def segment? (path : List Char) : Option (List Char) :=
  let front := (expressionsPath ++ "/").toList
  let segment := path.drop front.length
  if front.isPrefixOf path ∧ segment ≠ [] ∧ '/' ∉ segment then some segment else none

/-- The route of a path. -/
def ofPath? (path : List Char) : Option Route :=
  if path = "/health".toList then some .health
  else if path = "/api/v1/calculate".toList then some .calculate
  else if path = expressionsPath.toList then some .expressions
  else if path = "/internal/task".toList then some .nextTask
  else if path = "/internal/task/result".toList then some .taskResult
  else (segment? path).map .expression

/-- Whether the route takes something in; all others only answer. -/
def takesBody : Route → Bool
  | .calculate | .taskResult => true
  | .health | .expressions | .expression _ | .nextTask => false

/-- The methods of the route. -/
def methods (r : Route) : List String := if r.takesBody then ["POST"] else ["GET", "HEAD"]

/-- The methods of the route as a list in text. -/
def allow (r : Route) : String := ",".intercalate r.methods

end Route

end Piecework.Http
