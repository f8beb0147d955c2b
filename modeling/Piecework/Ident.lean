/-
# Piecework.Ident — the identities of tasks and expressions.

An identity is a word of 128 bits, written as 26 characters in base 32.  The alphabet leaves out the
letters that look like digits, and reading takes either case.  Twenty-six characters hold two bits more
than the word, which reading drops; so a word has one written form in upper case, and some further
texts read as it.  Tasks and expressions have identities of their own types, so that one is never taken
for the other.
-/
import Piecework.Arithmetic

namespace Piecework.Ident

/-- The characters of the 32 digits. -/
def alphabet : List Char := "0123456789ABCDEFGHJKMNPQRSTVWXYZ".toList

/-- The number of characters of an identity. -/
def textLength : Nat := 26

/-- Why a text is no identity. -/
inductive Fault where
  /-- It does not have 26 bytes. -/
  | length
  /-- A character is outside the alphabet. -/
  | character
deriving DecidableEq, Repr

/-- The wording of a fault. -/
def Fault.message : Fault → String
  | .length => "invalid length"
  | .character => "invalid character"

/-- The digit that a character stands for, in either case. -/
def digit? (c : Char) : Option Nat :=
  let i := alphabet.idxOf c.toUpper
  if i < alphabet.length then some i else none

/-- The character of a digit. -/
def digitChar (d : Nat) : Char := alphabet.getD d '0'

/-- The digits of a word from the last one backwards. -/
def digitsBack : Nat → Nat → List Char
  | 0, _ => []
  | count + 1, n => digitChar (n % 32) :: digitsBack count (n / 32)

/-- The written form of a word. -/
def characters (word : BitVec 128) : List Char := (digitsBack textLength word.toNat).reverse

/-- Reads digits from the front, each worth 32 times the next. -/
def ofDigits (word : BitVec 128) : List Char → Except Fault (BitVec 128)
  | [] => .ok word
  | c :: rest =>
    match digit? c with
    | some d => ofDigits (word * 32 + .ofNat 128 d) rest
    | none => .error .character

/-- Reads a word.  The length is counted in bytes and is looked at first. -/
def ofCharacters (text : List Char) : Except Fault (BitVec 128) :=
  if (text.map Char.utf8Size).sum = textLength then ofDigits 0 text else .error .length

end Piecework.Ident

namespace Piecework

/-- The identity of a task. -/
structure TaskId where
  word : BitVec 128
deriving DecidableEq, Repr

/-- The identity of an expression. -/
structure ExpressionId where
  word : BitVec 128
deriving DecidableEq, Repr

/-- The written form of a task's identity. -/
def TaskId.text (id : TaskId) : String := .ofList (Ident.characters id.word)

/-- The written form of an expression's identity. -/
def ExpressionId.text (id : ExpressionId) : String := .ofList (Ident.characters id.word)

/-- Reads the identity of a task. -/
def TaskId.ofText (text : String) : Except Ident.Fault TaskId :=
  (Ident.ofCharacters text.toList).map TaskId.mk

/-- Reads the identity of an expression. -/
def ExpressionId.ofText (text : String) : Except Ident.Fault ExpressionId :=
  (Ident.ofCharacters text.toList).map ExpressionId.mk

end Piecework
