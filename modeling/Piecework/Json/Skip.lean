/-
# Piecework.Json.Skip — passing over a value that nobody asked for.

Members that a type does not know are passed over, whatever they hold.  The walk keeps a stack of the
arrays and objects that are open, so that nesting has no limit, and checks the shape of the text but not
the content of strings beyond their escapes.
-/
import Piecework.Json.Text

namespace Piecework.Json

/-- An array or object that is open. -/
inductive Frame where
  | list
  | object
deriving DecidableEq, Repr

/-- The fault of an end of text inside a frame. -/
def Frame.unfinished : Frame → Cause
  | .list => .listUnfinished
  | .object => .objectUnfinished

/-- The fault of anything but a comma or the end of a frame. -/
def Frame.expectedComma : Frame → Cause
  | .list => .expectedListComma
  | .object => .expectedObjectComma

/-- The character that closes a frame. -/
def Frame.closing : Frame → Char
  | .list => ']'
  | .object => '\x7d'

/-- Passes over the rest of a string. -/
def skipString : Nat → List Char → Except Fault (List Char)
  | 0, text => .error (.here .stringUnfinished text)
  | fuel + 1, text =>
    match text with
    | [] => .error (.here .stringUnfinished [])
    | '"' :: rest => .ok rest
    | '\\' :: [] => .error (.here .stringUnfinished [])
    | '\\' :: c :: rest =>
      if c = 'u' then
        match readHex rest with
        | .ok (_, rest) => skipString fuel rest
        | .error fault => .error fault
      else if (shortEscape? c).isSome then skipString fuel rest
      else .error (.past .invalidEscape (c :: rest))
    | c :: rest =>
      if c.toNat < 0x20 then .error (.here .controlCharacter (c :: rest)) else skipString fuel rest

/-- Passes over an exponent from behind its `e`. -/
def skipExponent (text : List Char) : Except Fault (List Char) :=
  let digits := match text with
    | '+' :: rest => rest
    | '-' :: rest => rest
    | _ => text
  match digits with
  | c :: rest =>
    if c.isDigit then .ok (rest.dropWhile Char.isDigit) else .error (.past .invalidNumber digits)
  | [] => .error (.here .invalidNumber [])

/-- Passes over an exponent if one follows. -/
def skipScaling (text : List Char) : Except Fault (List Char) :=
  match text with
  | c :: rest => if c = 'e' ∨ c = 'E' then skipExponent rest else .ok text
  | [] => .ok []

/-- Passes over a point with its places and an exponent, if they follow. -/
def skipFraction (text : List Char) : Except Fault (List Char) :=
  match text with
  | '.' :: rest =>
    match rest with
    | c :: _ =>
      if c.isDigit then skipScaling (rest.dropWhile Char.isDigit) else .error (.past .invalidNumber rest)
    | [] => .error (.here .invalidNumber [])
  | _ => skipScaling text

/-- Passes over a number from behind its sign. -/
def skipNumber (text : List Char) : Except Fault (List Char) :=
  match text with
  | [] => .error (.here .invalidNumber [])
  | c :: rest =>
    if c = '0' then
      match rest with
      | d :: _ => if d.isDigit then .error (.past .invalidNumber rest) else skipFraction rest
      | [] => .ok []
    else if c.isDigit then skipFraction (rest.dropWhile Char.isDigit)
    else .error (.past .invalidNumber text)

/-- Passes over a key and its colon, when an object goes on. -/
def skipKey (text : List Char) : Except Fault (List Char) :=
  match skipSpace text with
  | '"' :: rest =>
    match skipString (rest.length + 1) rest with
    | .error fault => .error fault
    | .ok rest =>
      match skipSpace rest with
      | ':' :: rest => .ok rest
      | [] => .error (.here .objectUnfinished [])
      | other => .error (.past .expectedColon other)
  | [] => .error (.here .objectUnfinished [])
  | other => .error (.past .keyNotString other)

/-- Goes to the next value of a frame. -/
def skipToValue (frame : Frame) (text : List Char) : Except Fault (List Char) :=
  match frame with
  | .list => .ok text
  | .object => skipKey text

/-- What stands at the start of a value. -/
inductive Opening where
  /-- A value without parts, and the rest behind it. -/
  | scalar (rest : List Char)
  | frame (frame : Frame) (rest : List Char)

/-- Passes over a value without parts, or sees that a frame opens. -/
def skipOpening (text : List Char) : Except Fault Opening :=
  match skipSpace text with
  | [] => .error (.here .valueUnfinished [])
  | c :: rest =>
    if c = 'n' then (readUll rest).map .scalar
    else if c = 't' then (readWord ['r', 'u', 'e'] rest).map .scalar
    else if c = 'f' then (readWord ['a', 'l', 's', 'e'] rest).map .scalar
    else if c = '-' then (skipNumber rest).map .scalar
    else if c.isDigit then (skipNumber (c :: rest)).map .scalar
    else if c = '"' then (skipString (rest.length + 1) rest).map .scalar
    else if c = '[' then .ok (.frame .list rest)
    else if c = '\x7b' then .ok (.frame .object rest)
    else .error (.past .expectedValue (c :: rest))

/-- Closes the frames that end here and goes to the next value; with no frame left the walk is over.
Right behind the opening of a frame no comma is due. -/
def skipClosings (comma : Bool) : List Frame → List Char → Except Fault (List Frame × List Char)
  | [], text => .ok ([], text)
  | frame :: stack, text =>
    match skipSpace text with
    | [] => .error (.here frame.unfinished [])
    | c :: rest =>
      if c = ',' ∧ comma then (skipToValue frame rest).map fun rest => (frame :: stack, rest)
      else if c = frame.closing then skipClosings true stack rest
      else if comma then .error (.past frame.expectedComma (c :: rest))
      else (skipToValue frame (c :: rest)).map fun rest => (frame :: stack, rest)

/-- Passes over values until no frame is open.  Each round takes a character at least, so the length of
the text bounds the rounds. -/
def skipValues : Nat → List Frame → List Char → Except Fault (List Char)
  | 0, _, text => .error (.here .valueUnfinished text)
  | fuel + 1, stack, text =>
    match skipOpening text with
    | .error fault => .error fault
    | .ok opening =>
      let next := match opening with
        | .scalar rest => skipClosings true stack rest
        | .frame frame rest => skipClosings false (frame :: stack) rest
      match next with
      | .error fault => .error fault
      | .ok ([], rest) => .ok rest
      | .ok (frames, rest) => skipValues fuel frames rest

/-- Passes over one value. -/
def skipValue (text : List Char) : Except Fault (List Char) := skipValues (text.length + 1) [] text

end Piecework.Json
