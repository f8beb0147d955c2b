/-
# Piecework.Text.Quoted — text shown in quotes with escapes.

Messages and log lines show a text or a character of the input in quotes.  The quote itself, the
backslash and the usual controls have short escapes; a character without a visible form, or one that
would attach to the character before it, is shown by its code point.
-/
import Piecework.Text.Extending
import Piecework.Text.Unprintable

namespace Piecework.Text

/-- A code point in braces, in hexadecimal without leading zeros. -/
def codePoint (c : Char) : List Char :=
  '\\' :: 'u' :: '\x7b' :: (Nat.toDigits 16 c.toNat ++ ['\x7d'])

/-- How one character stands between quotes of the given kind. -/
def escaped (quote c : Char) : List Char :=
  if c = '\x00' then ['\\', '0']
  else if c = '\t' then ['\\', 't']
  else if c = '\r' then ['\\', 'r']
  else if c = '\n' then ['\\', 'n']
  else if c = quote ∨ c = '\\' then ['\\', c]
  else if c.toNat < 0x20 ∨ c.toNat = 0x7f then codePoint c
  else if c.toNat < 0x80 then [c]
  else if isExtending c ∨ isUnprintable c then codePoint c
  else [c]

/-- A text in double quotes. -/
def quotedCharacters (text : List Char) : List Char :=
  '"' :: (text.flatMap (escaped '"') ++ ['"'])

/-- A text in double quotes. -/
def quoted (text : String) : String := .ofList (quotedCharacters text.toList)

/-- A character in single quotes. -/
def quotedChar (c : Char) : String := .ofList ('\'' :: (escaped '\'' c ++ ['\'']))

example : quoted "a\"b'\n" = "\"a\\\"b'\\n\"" := by decide

example : quotedChar (.ofNat 0x301) = "'\\u\x7b301\x7d'" := by decide

end Piecework.Text
