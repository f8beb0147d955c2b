/-
# Piecework.Json.Text — blanks, words and strings of JSON.

Strings are written with the short escapes and, for the other controls, four hexadecimal digits; all
else stands for itself.  Reading takes every escape, joins surrogate pairs, and refuses raw controls and
halves of pairs.
-/
import Piecework.Json.Fault

namespace Piecework.Json

/-! ## Blanks and words -/

/-- The four blanks of JSON. -/
def isSpace (c : Char) : Bool := c = ' ' || c = '\n' || c = '\t' || c = '\r'

/-- Skips blanks. -/
def skipSpace (text : List Char) : List Char := text.dropWhile isSpace

/-- Reads the characters of a word that is bound to follow. -/
def readWord : List Char → List Char → Except Fault (List Char)
  | [], text => .ok text
  | _ :: _, [] => .error (.here .valueUnfinished [])
  | w :: word, c :: text => if c = w then readWord word text else .error (.past .expectedWord (c :: text))

/-- Reads what is left of `null` after its first letter. -/
def readUll (text : List Char) : Except Fault (List Char) := readWord ['u', 'l', 'l'] text

/-! ## Writing strings -/

/-- A hexadecimal digit in lower case. -/
def hexDigit (n : Nat) : Char := "0123456789abcdef".toList.getD n '0'

/-- How one character stands in a string. -/
def escaped (c : Char) : List Char :=
  if c = '"' then ['\\', '"']
  else if c = '\\' then ['\\', '\\']
  else if c = '\x08' then ['\\', 'b']
  else if c = '\x0c' then ['\\', 'f']
  else if c = '\n' then ['\\', 'n']
  else if c = '\r' then ['\\', 'r']
  else if c = '\t' then ['\\', 't']
  else if c.toNat < 0x20 then
    ['\\', 'u', '0', '0', hexDigit (c.toNat / 16), hexDigit (c.toNat % 16)]
  else [c]

/-- A string in quotes. -/
def writeString (text : List Char) : List Char := '"' :: (text.flatMap escaped ++ ['"'])

/-! ## Reading strings -/

/-- The value of a hexadecimal digit in either case. -/
def hexValue? (c : Char) : Option Nat :=
  if '0' ≤ c ∧ c ≤ '9' then some (c.toNat - '0'.toNat)
  else if 'a' ≤ c ∧ c ≤ 'f' then some (c.toNat - 'a'.toNat + 10)
  else if 'A' ≤ c ∧ c ≤ 'F' then some (c.toNat - 'A'.toNat + 10)
  else none

/-- Reads four hexadecimal digits.  Four bytes are looked at, whatever they are. -/
def readHex (text : List Char) : Except Fault (Nat × List Char) :=
  match text with
  | a :: b :: c :: d :: rest =>
    match hexValue? a, hexValue? b, hexValue? c, hexValue? d with
    | some a, some b, some c, some d => .ok (((a * 16 + b) * 16 + c) * 16 + d, rest)
    | _, _, _, _ => .error ⟨.invalidEscape, .at text 4, []⟩
  | _ =>
    if byteLength text < 4 then .error (.here .stringUnfinished [])
    else .error ⟨.invalidEscape, .at text 4, []⟩

/-- A first half of a surrogate pair. -/
def isLeading (n : Nat) : Bool := 0xD800 ≤ n && n ≤ 0xDBFF

/-- A second half of a surrogate pair. -/
def isTrailing (n : Nat) : Bool := 0xDC00 ≤ n && n ≤ 0xDFFF

/-- Reads a code point from behind `\u`, with its second half if it has one. -/
def readCodePoint (text : List Char) : Reading Char :=
  match readHex text with
  | .error fault => .error fault
  | .ok (n, rest) =>
    if isTrailing n then .error (.here .loneSurrogate rest)
    -- The second half has to follow as an escape of its own.
    else if isLeading n then
      match rest with
      | [] => .error (.here .stringUnfinished [])
      | '\\' :: [] => .error (.here .stringUnfinished [])
      | '\\' :: 'u' :: more =>
        match readHex more with
        | .error fault => .error fault
        | .ok (m, rest) =>
          if isTrailing m then .ok (.ofNat (0x10000 + (n - 0xD800) * 0x400 + (m - 0xDC00)), rest)
          else .error (.here .loneSurrogate rest)
      | '\\' :: more => .error (.past .escapeUnfinished more)
      | _ => .error (.past .escapeUnfinished rest)
    else .ok (.ofNat n, rest)

/-- The character of an escape with one letter. -/
def shortEscape? (c : Char) : Option Char :=
  if c = '"' ∨ c = '\\' ∨ c = '/' then some c
  else if c = 'b' then some '\x08'
  else if c = 'f' then some '\x0c'
  else if c = 'n' then some '\n'
  else if c = 'r' then some '\r'
  else if c = 't' then some '\t'
  else none

/-- Reads one character of a string, or sees its closing quote. -/
def readCharacter : List Char → Reading (Option Char)
  | [] => .error (.here .stringUnfinished [])
  | '"' :: rest => .ok (none, rest)
  | '\\' :: [] => .error (.here .stringUnfinished [])
  | '\\' :: c :: rest =>
    if c = 'u' then (readCodePoint rest).map fun (c, rest) => (some c, rest)
    else
      match shortEscape? c with
      | some c => .ok (some c, rest)
      | none => .error (.past .invalidEscape (c :: rest))
  | c :: rest =>
    if c.toNat < 0x20 then .error (.past .controlCharacter (c :: rest)) else .ok (some c, rest)

/-- Reads the rest of a string with what was read before, the last character first.  Every character
takes at least one of the text, so the length of the text bounds the walk. -/
def readCharacters : Nat → List Char → List Char → Reading (List Char)
  | 0, _, text => .error (.here .stringUnfinished text)
  | fuel + 1, done, text =>
    match readCharacter text with
    | .error fault => .error fault
    | .ok (none, rest) => .ok (done.reverse, rest)
    | .ok (some c, rest) => readCharacters fuel (c :: done) rest

/-- Reads a string from behind its opening quote. -/
def readString (text : List Char) : Reading (List Char) := readCharacters (text.length + 1) [] text

end Piecework.Json
