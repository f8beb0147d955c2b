/-
# Piecework.Json.Fault — why and where reading JSON stops.

A text is read from left to right into a value of a known type, and reading stops at the first fault,
whether the text is no JSON there or the value does not fit.  A fault has a cause, a place in the text
and a path of members and elements that leads to it.  Some faults are found only after a value has been
read; they are placed behind the object or array around them, once that is closed.
-/
import Piecework.Arithmetic

namespace Piecework.Json

/-- What stands where something else was expected. -/
inductive Found where
  | null
  | boolean (value : Bool)
  /-- A whole number by its digits with the sign. -/
  | integer (value : Int)
  /-- A number with a fraction or exponent, as text. -/
  | float (text : String)
  /-- A string, as quoted text. -/
  | string (text : String)
  | sequence
  | map
deriving DecidableEq, Repr

/-- The wording of what was found. -/
def Found.text : Found → String
  | .null => "null"
  | .boolean value => "boolean `" ++ (if value then "true" else "false") ++ "`"
  | .integer value => "integer `" ++ toString value ++ "`"
  | .float text => "floating point `" ++ text ++ "`"
  | .string text => "string " ++ text
  | .sequence => "sequence"
  | .map => "map"

/-- Why reading stops. -/
inductive Cause where
  | listUnfinished
  | objectUnfinished
  | stringUnfinished
  | valueUnfinished
  | expectedColon
  | expectedListComma
  | expectedObjectComma
  | expectedWord
  | expectedValue
  | invalidEscape
  | invalidNumber
  | outOfRange
  | controlCharacter
  | keyNotString
  | loneSurrogate
  | trailingComma
  | trailingCharacters
  | escapeUnfinished
  /-- A value of another kind. -/
  | wrongType (found : Found) (expected : String)
  /-- A value of the right kind that is not allowed. -/
  | wrongValue (found : Found) (expected : String)
  /-- A word that is none of the choices. -/
  | unknownChoice (word : String) (choices : List String)
  | missingMember (name : String)
  | duplicateMember (name : String)
  /-- An array with too few elements. -/
  | wrongLength (length : Nat) (expected : String)
  /-- A string that does not read as what it should stand for. -/
  | refused (reason : String)
deriving DecidableEq, Repr

/-- The three kinds of causes. -/
inductive Category where
  /-- The text ends too early. -/
  | unfinished
  /-- The text is no JSON. -/
  | malformed
  /-- The text is JSON up to here, but does not fit the type. -/
  | mismatch
deriving DecidableEq, Repr

/-- The kind of a cause. -/
def Cause.category : Cause → Category
  | .listUnfinished | .objectUnfinished | .stringUnfinished | .valueUnfinished => .unfinished
  | .wrongType .. | .wrongValue .. | .unknownChoice .. | .missingMember _ | .duplicateMember _
  | .wrongLength .. | .refused _ => .mismatch
  | _ => .malformed

/-- A word in backquotes. -/
def backquoted (word : String) : String := "`" ++ word ++ "`"

/-- The choices of a word as they are listed in a message. -/
def choiceText : List String → String
  | [] => "there are no variants"
  | [a] => "expected " ++ backquoted a
  | [a, b] => "expected " ++ backquoted a ++ " or " ++ backquoted b
  | choices => "expected one of " ++ String.intercalate ", " (choices.map backquoted)

/-- The wording of a cause. -/
def Cause.message : Cause → String
  | .listUnfinished => "EOF while parsing a list"
  | .objectUnfinished => "EOF while parsing an object"
  | .stringUnfinished => "EOF while parsing a string"
  | .valueUnfinished => "EOF while parsing a value"
  | .expectedColon => "expected `:`"
  | .expectedListComma => "expected `,` or `]`"
  | .expectedObjectComma => "expected `,` or `\x7d`"
  | .expectedWord => "expected ident"
  | .expectedValue => "expected value"
  | .invalidEscape => "invalid escape"
  | .invalidNumber => "invalid number"
  | .outOfRange => "number out of range"
  | .controlCharacter => "control character (\\u0000-\\u001F) found while parsing a string"
  | .keyNotString => "key must be a string"
  | .loneSurrogate => "lone leading surrogate in hex escape"
  | .trailingComma => "trailing comma"
  | .trailingCharacters => "trailing characters"
  | .escapeUnfinished => "unexpected end of hex escape"
  | .wrongType found expected => "invalid type: " ++ found.text ++ ", expected " ++ expected
  | .wrongValue found expected => "invalid value: " ++ found.text ++ ", expected " ++ expected
  | .unknownChoice word choices => "unknown variant " ++ backquoted word ++ ", " ++ choiceText choices
  | .missingMember name => "missing field " ++ backquoted name
  | .duplicateMember name => "duplicate field " ++ backquoted name
  | .wrongLength length expected => "invalid length " ++ toString length ++ ", expected " ++ expected
  | .refused reason => reason

/-- Where a fault lies. -/
inductive Place where
  /-- So many bytes into what was left of the text; beyond its end means at its end. -/
  | at (rest : List Char) (ahead : Nat)
  /-- Not placed yet: reading had come so far. -/
  | pending (rest : List Char)
deriving DecidableEq, Repr

/-- One step of the way to a fault. -/
inductive Segment where
  | member (name : String)
  | element (index : Nat)
deriving DecidableEq, Repr

/-- Why, where and on which way reading stopped. -/
structure Fault where
  cause : Cause
  place : Place
  path : List Segment
deriving DecidableEq, Repr

/-- What reading a value yields: the value and the rest of the text. -/
abbrev Reading (α : Type) := Except Fault (α × List Char)

namespace Fault

/-- A fault at the start of the rest. -/
def here (cause : Cause) (rest : List Char) : Fault := ⟨cause, .at rest 0, []⟩

/-- A fault behind the next byte of the rest, or at the end if there is none. -/
def past (cause : Cause) (rest : List Char) : Fault := ⟨cause, .at rest 1, []⟩

/-- A fault that the value around it will place. -/
def unplaced (cause : Cause) (rest : List Char) : Fault := ⟨cause, .pending rest, []⟩

/-- The fault with one more step in front of its path. -/
def inside (step : Segment) (f : Fault) : Fault := { f with path := step :: f.path }

/-- Places a pending fault where `move` takes the rest. -/
def settle (move : List Char → List Char) (f : Fault) : Fault :=
  match f.place with
  | .at .. => f
  | .pending rest => { f with place := .at (move rest) 0 }

end Fault

/-! ## Positions -/

/-- The number of bytes of a text. -/
def byteLength (text : List Char) : Nat := (text.map Char.utf8Size).sum

/-- The line and column after so many bytes.  Lines count from one, columns count bytes from the last
line end. -/
def position : List Char → Nat → Nat × Nat → Nat × Nat
  | [], _, p => p
  | c :: text, bytes, (line, column) =>
    if bytes = 0 then (line, column)
    else if c = '\n' then position text (bytes - 1) (line + 1, 0)
    else position text (bytes - c.utf8Size) (line, column + min bytes c.utf8Size)

/-- The line and column of a fault in the text that was read. -/
def Fault.position (f : Fault) (source : List Char) : Nat × Nat :=
  let total := byteLength source
  let bytes := match f.place with
    | .at rest ahead => min total (total - byteLength rest + ahead)
    | .pending rest => total - byteLength rest
  Json.position source bytes (1, 0)

/-- A path as text: members joined by points, elements in brackets. -/
def pathText : List Segment → String
  | [] => ""
  | .member name :: rest =>
    name ++ (match rest with
      | .member _ :: _ => "."
      | _ => "") ++ pathText rest
  | .element index :: rest =>
    "[" ++ toString index ++ "]" ++ (match rest with
      | .member _ :: _ => "."
      | _ => "") ++ pathText rest

/-- The full report of a fault: the path if there is one, the cause, and the position. -/
def Fault.report (f : Fault) (source : List Char) : String :=
  let (line, column) := f.position source
  (if f.path.isEmpty then "" else pathText f.path ++ ": ") ++ f.cause.message
    ++ " at line " ++ toString line ++ " column " ++ toString column

end Piecework.Json
