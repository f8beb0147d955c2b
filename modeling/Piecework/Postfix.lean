/-
# Piecework.Postfix — expressions with each operator behind its operands.

Infix symbols are brought into postfix order with a stack of operators that still wait for their right
operand.  A new operator first releases the ones on the stack that bind at least as tightly, so that
equal precedence associates to the left; brackets fence the stack off.  The operands keep their order.
-/
import Piecework.Infix

namespace Piecework.Postfix

/-- One element of a postfix sequence. -/
inductive Item where
  | number (value : Float)
  | operator (operation : Operation)
deriving DecidableEq

/-- What waits on the stack. -/
inductive Waiting where
  | operator (operation : Operation)
  | opening
deriving DecidableEq, Repr

/-- Releases the operators on top of the stack that bind at least as tightly as the given one. -/
def release (operation : Operation) : List Waiting → List Item × List Waiting
  | .operator top :: stack =>
    if operation.precedence ≤ top.precedence then
      let (out, rest) := release operation stack
      (.operator top :: out, rest)
    else ([], .operator top :: stack)
  | stack => ([], stack)

/-- Releases everything up to the opening bracket that a closing one answers. -/
def unwind : List Waiting → Except CompileFault (List Item × List Waiting)
  | [] => .error .brackets
  | .opening :: stack => .ok ([], stack)
  | .operator top :: stack =>
    match unwind stack with
    | .ok (out, rest) => .ok (.operator top :: out, rest)
    | .error fault => .error fault

/-- Releases everything at the end; no bracket may be left open. -/
def drain : List Waiting → Except CompileFault (List Item)
  | [] => .ok []
  | .opening :: _ => .error .brackets
  | .operator top :: stack =>
    match drain stack with
    | .ok out => .ok (.operator top :: out)
    | .error fault => .error fault

/-- Puts items in front of a sequence that may have failed. -/
def emit (out : List Item) : Except CompileFault (List Item) → Except CompileFault (List Item)
  | .ok rest => .ok (out ++ rest)
  | .error fault => .error fault

/-- Brings symbols into postfix order.  Where the symbols end at a fault of the text, that fault is
the result, unless the brackets have failed before. -/
def arrange (fault : Option CompileFault) : List Waiting → List Infix.Symbol →
    Except CompileFault (List Item)
  | stack, [] =>
    match fault with
    | some fault => .error fault
    | none => drain stack
  | stack, .number value :: rest => emit [.number value] (arrange fault stack rest)
  | stack, .operator operation :: rest =>
    let (out, kept) := release operation stack
    emit out (arrange fault (.operator operation :: kept) rest)
  | stack, .opening :: rest => arrange fault (.opening :: stack) rest
  | stack, .closing :: rest =>
    match unwind stack with
    | .ok (out, kept) => emit out (arrange fault kept rest)
    | .error fault => .error fault

/-- The postfix sequence of an expression. -/
def ofText (text : String) : Except CompileFault (List Item) :=
  let scan := Infix.scan text
  arrange scan.fault [] scan.symbols

end Piecework.Postfix
