/-
# Piecework.Infix — the symbols of an expression.

The text of an expression is cut into numbers, operators and brackets.  A number is a maximal run of
digits and points and must read as a finite double; blanks may stand anywhere between symbols.  Scanning
stops at the first fault and keeps the symbols before it, because a bracket that closes nothing is
noticed before anything to its right is looked at.
-/
import Piecework.Number.Reader
import Piecework.Operation
import Piecework.Text.Blank
import Piecework.Text.Quoted

namespace Piecework

/-- Why an expression does not compile. -/
inductive CompileFault where
  /-- The brackets do not pair up. -/
  | brackets
  /-- A character that no symbol starts with, and the number of bytes before it. -/
  | notAllowed (found : Char) (position : Nat)
  /-- An operator lacks an operand, or an operand an operator. -/
  | values
  /-- A run of digits and points that is no finite number. -/
  | number (text : String)
deriving DecidableEq, Repr

/-- The wording of a fault. -/
def CompileFault.message (fault : CompileFault) : String :=
  "expression is not valid. " ++ match fault with
  | .brackets => "number of brackets doesn't match"
  | .notAllowed found position =>
    "only numbers and ( ) + - * / allowed, found " ++ Text.quotedChar found ++ " at "
      ++ .ofList (Number.decimal position)
  | .values => "not enough values"
  | .number text => "malformed number " ++ Text.quoted text

namespace Infix

/-- A symbol of the infix notation. -/
inductive Symbol where
  | number (value : Float)
  | operator (operation : Operation)
  | opening
  | closing
deriving DecidableEq

/-- The characters of a number. -/
def isNumeral (c : Char) : Bool := c.isDigit || c = '.'

/-- Reads a run of digits and points. -/
def readNumber (run : List Char) : Except CompileFault Float :=
  match Number.readFloat? run with
  | some value => if Number.isFinite value then .ok value else .error (.number (.ofList run))
  | none => .error (.number (.ofList run))

/-- The symbols of a text up to its first fault, and that fault if there is one. -/
structure Scan where
  symbols : List Symbol
  fault : Option CompileFault

/-- The scan with one more symbol in front. -/
def Scan.cons (s : Symbol) (scan : Scan) : Scan := { scan with symbols := s :: scan.symbols }

/-- Cuts a text into symbols.  The position counts the bytes before the text. -/
def scanFrom (position : Nat) (text : List Char) : Scan :=
  match text with
  | [] => ⟨[], none⟩
  | c :: rest =>
    if isNumeral c then
      let run := c :: rest.takeWhile isNumeral
      match readNumber run with
      | .ok value => (scanFrom (position + run.length) (rest.dropWhile isNumeral)).cons (.number value)
      | .error fault => ⟨[], some fault⟩
    else
      match Operation.ofSymbol? c with
      | some operation => (scanFrom (position + 1) rest).cons (.operator operation)
      | none =>
        if c = '(' then (scanFrom (position + 1) rest).cons .opening
        else if c = ')' then (scanFrom (position + 1) rest).cons .closing
        -- Of all that may stand in a text only blanks can take more than one byte.
        else if Text.isBlank c then scanFrom (position + c.utf8Size) rest
        else ⟨[], some (.notAllowed c position)⟩
termination_by text.length
decreasing_by
  · exact Nat.lt_succ_of_le (List.dropWhile_sublist _).length_le
  all_goals exact Nat.lt_succ_self _

/-- Cuts an expression into symbols. -/
def scan (text : String) : Scan := scanFrom 0 text.toList

end Infix

end Piecework
