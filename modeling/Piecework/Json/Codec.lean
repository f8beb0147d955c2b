/-
# Piecework.Json.Codec — writing and reading values of one type.

A codec holds both directions for one type.  Reading starts at any blanks before the value and ends right
behind it, so that codecs compose: an element of an array and a member of an object are read by the
codec of their own type.  What stands where another kind of value is expected is read as far as a message
about it needs.
-/
import Piecework.Json.Number
import Piecework.Text.Quoted

namespace Piecework.Json

/-- How values of one type are written and read. -/
structure Codec (α : Type) where
  write : α → List Char
  read : List Char → Reading α

/-! ## Values of the wrong kind -/

/-- The fault for what stands at the start of the text when `expected` is not there.  Words, numbers and
strings are read first, and may themselves be faulty. -/
def mismatch (expected : String) (text : List Char) : Fault :=
  let wrong (found : Found) (rest : List Char) : Fault := .here (.wrongType found expected) rest
  let word (letters : List Char) (found : Found) (rest : List Char) : Fault :=
    match readWord letters rest with
    | .ok rest => wrong found rest
    | .error fault => fault
  match text with
  | [] => .here .expectedValue []
  | c :: rest =>
    if c = 'n' then word ['u', 'l', 'l'] .null rest
    else if c = 't' then word ['r', 'u', 'e'] (.boolean true) rest
    else if c = 'f' then word ['a', 'l', 's', 'e'] (.boolean false) rest
    else if startsNumber c then
      match readNumber text with
      | .ok (n, rest) => wrong n.found rest
      | .error fault => fault
    else if c = '"' then
      match readString rest with
      | .ok (s, rest) => wrong (.string (.ofList (Text.quotedCharacters s))) rest
      | .error fault => fault
    else if c = '[' then wrong .sequence text
    else if c = '\x7b' then wrong .map text
    else .past .expectedValue text

/-! ## Strings and numbers -/

/-- Reads a string, or what is expected to be one under another name. -/
def readText (expected : String) (text : List Char) : Reading String :=
  match skipSpace text with
  | [] => .error (.here .valueUnfinished [])
  | '"' :: rest => (readString rest).map fun (s, rest) => (.ofList s, rest)
  | other => .error (mismatch expected other)

/-- Strings. -/
def Codec.string : Codec String where
  write s := writeString s.toList
  read := readText "a string"

/-- Values that are written as strings and may be refused when read; a refusal is placed by the value
around. -/
def Codec.text (render : α → String) (parse : String → Except String α) : Codec α where
  write a := writeString (render a).toList
  read text :=
    match readText "a string" text with
    | .error fault => .error fault
    | .ok (s, rest) =>
      match parse s with
      | .ok a => .ok (a, rest)
      | .error reason => .error (.unplaced (.refused reason) rest)

/-- Reads a number and fits it to the type. -/
def readFitting (expected : String) (fit : Numeral → Except Cause α) (text : List Char) : Reading α :=
  match skipSpace text with
  | [] => .error (.here .valueUnfinished [])
  | c :: rest =>
    if startsNumber c then
      match readNumber (c :: rest) with
      | .error fault => .error fault
      | .ok (n, rest) =>
        match fit n with
        | .ok a => .ok (a, rest)
        | .error cause => .error (.here cause rest)
    else .error (mismatch expected (c :: rest))

/-- Doubles. -/
def Codec.float : Codec Float where
  write := writeFloat
  read := readFitting "f64" fun n => .ok n.toFloat

/-- Natural numbers of 64 bits. -/
def Codec.word : Codec UInt64 where
  write n := Number.decimal n.toNat
  read := readFitting "u64" fun
    | .integer value =>
      if 0 ≤ value then .ok (.ofNat value.toNat) else .error (.wrongValue (.integer value) "u64")
    | n@(.float _) => .error (.wrongType n.found "u64")

/-- Values that may be absent, which is written as `null`. -/
def Codec.option (c : Codec α) : Codec (Option α) where
  write
    | none => "null".toList
    | some a => c.write a
  read text :=
    match skipSpace text with
    | 'n' :: rest => (readUll rest).map fun rest => (none, rest)
    | other => (c.read other).map fun (a, rest) => (some a, rest)

/-! ## Arrays -/

/-- Goes to the next element of an array, or sees that there is none.  The closing bracket stays. -/
def nextElement (first : Bool) (text : List Char) : Except Fault (Option (List Char)) :=
  match skipSpace text with
  | [] => .error (.here .listUnfinished [])
  | c :: rest =>
    if c = ']' then .ok none
    else if first then .ok (some (c :: rest))
    else if c = ',' then
      match skipSpace rest with
      | [] => .error (.here .valueUnfinished [])
      | d :: more =>
        if d = ']' then .error (.past .trailingComma (d :: more)) else .ok (some (d :: more))
    else .error (.past .expectedListComma (c :: rest))

/-- Closes an array: nothing but the bracket may follow. -/
def closeList (text : List Char) : Except Fault (List Char) :=
  match skipSpace text with
  | [] => .error (.here .listUnfinished [])
  | c :: rest =>
    if c = ']' then .ok rest
    else if c = ',' then
      match skipSpace rest with
      | ']' :: more => .error (.past .trailingComma (']' :: more))
      | other => .error (.past .trailingCharacters other)
    else .error (.past .trailingCharacters (c :: rest))

/-- Where closing an array leaves the text, whatever is found. -/
def afterList (text : List Char) : List Char :=
  match skipSpace text with
  | ']' :: rest => rest
  | ',' :: rest => skipSpace rest
  | other => other

/-- Closes an array behind its content, and places a fault of the content that is pending. -/
def closingList (content : Reading α) : Reading α :=
  match content with
  | .error fault => .error (fault.settle afterList)
  | .ok (a, rest) => (closeList rest).map fun rest => (a, rest)

/-- Reads the elements of an array from the given place on. -/
def readElements (read : List Char → Reading α) : Nat → Nat → List Char → Reading (List α)
  | 0, _, text => .error (.here .listUnfinished text)
  | fuel + 1, index, text =>
    match nextElement (index = 0) text with
    | .error fault => .error fault
    | .ok none => .ok ([], text)
    | .ok (some text) =>
      match read text with
      | .error fault => .error (fault.inside (.element index))
      | .ok (a, rest) =>
        (readElements read fuel (index + 1) rest).map fun (more, rest) => (a :: more, rest)

/-- Values with commas between them. -/
def separated (items : List (List Char)) : List Char := List.intercalate [','] items

/-- Lists. -/
def Codec.list (c : Codec α) : Codec (List α) where
  write items := '[' :: (separated (items.map c.write) ++ [']'])
  read text :=
    match skipSpace text with
    | [] => .error (.here .valueUnfinished [])
    | '[' :: rest => closingList (readElements c.read (rest.length + 1) 0 rest)
    | other => .error (mismatch "a sequence" other)

/-! ## Choices -/

/-- Finds the value of a word. -/
def pick (choices : List (String × α)) (word : String) (rest : List Char) : Reading α :=
  match choices.lookup word with
  | some a => .ok (a, rest)
  | none => .error (.here (.unknownChoice word (choices.map Prod.fst)) rest)

/-- Reads a colon. -/
def readColon (text : List Char) : Except Fault (List Char) :=
  match skipSpace text with
  | ':' :: rest => .ok rest
  | [] => .error (.here .objectUnfinished [])
  | other => .error (.past .expectedColon other)

/-- Reads the `null` that a choice in the form of an object holds. -/
def readNothing (text : List Char) : Except Fault (List Char) :=
  match skipSpace text with
  | [] => .error (.here .valueUnfinished [])
  | 'n' :: rest => readUll rest
  | other => .error (mismatch "unit" other)

/-- Reads a choice in the form of an object from behind its opening brace. -/
def readWrapped (choices : List (String × α)) (text : List Char) : Reading α :=
  match readText "variant identifier" text with
  | .error fault => .error fault
  | .ok (word, rest) =>
    match pick choices word rest with
    | .error fault => .error fault
    | .ok (a, rest) =>
      match readColon rest with
      | .error fault => .error fault
      | .ok rest =>
        match readNothing rest with
        | .error fault => .error (fault.inside (.member word))
        | .ok rest =>
          match skipSpace rest with
          | [] => .error (.here .objectUnfinished [])
          | c :: rest => if c = '\x7d' then .ok (a, rest) else .error (.here .expectedValue (c :: rest))

/-- One of a few words, written as a string; an object with the word as its one member and `null` in it
is read too. -/
def Codec.choice (choices : List (String × α)) (name : α → String) : Codec α where
  write a := writeString (name a).toList
  read text :=
    match skipSpace text with
    | [] => .error (.here .valueUnfinished [])
    | c :: rest =>
      if c = '\x7b' then readWrapped choices rest
      else if c = '"' then
        match readText "variant identifier" (c :: rest) with
        | .error fault => .error fault
        | .ok (word, rest) => pick choices word rest
      else .error (.past .expectedValue (c :: rest))

/-! ## Whole texts -/

/-- Reads a text that holds one value and nothing else. -/
def Codec.decode (c : Codec α) (text : String) : Except Fault α :=
  match c.read text.toList with
  | .error fault => .error fault
  | .ok (a, rest) =>
    match skipSpace rest with
    | [] => .ok a
    | other => .error (.past .trailingCharacters other)

/-- Writes a value as a text. -/
def Codec.encode (c : Codec α) (a : α) : String := .ofList (c.write a)

end Piecework.Json
