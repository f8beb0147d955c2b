/-
# Piecework.Argument — the operands of a task.

An operand is either a number or the output of another task.  As text a number is written plainly, and
the output of a task is written `task_…_result` around the task's identity.  A text that is framed this
way is never read as a number.
-/
import Piecework.Ident
import Piecework.Number.Layout
import Piecework.Number.Reader
import Piecework.Text.Quoted

namespace Piecework

/-- An operand of a task. -/
inductive Argument where
  /-- A number from the expression itself. -/
  | literal (value : Float)
  /-- The result of the task with this identity. -/
  | output (task : TaskId)
deriving DecidableEq

/-- A text that is no operand. -/
structure ArgumentFault where
  text : String
deriving DecidableEq, Repr

/-- The wording of the fault. -/
def ArgumentFault.message (fault : ArgumentFault) : String :=
  "invalid task argument: " ++ Text.quoted fault.text

namespace Argument

/-- What stands before the identity. -/
def opening : List Char := "task_".toList

/-- What stands behind the identity. -/
def closing : List Char := "_result".toList

/-- The part of a text between the opening and the closing, if it has both. -/
def framed? (text : List Char) : Option (List Char) :=
  if opening.isPrefixOf text then
    let rest := text.drop opening.length
    if closing.isSuffixOf rest then some (rest.take (rest.length - closing.length)) else none
  else none

/-- The task that an operand waits for. -/
def dependency? : Argument → Option TaskId
  | .literal _ => none
  | .output task => some task

/-- The written form of an operand. -/
def text : Argument → String
  | .literal value => Number.plain.text value
  | .output task => .ofList opening ++ task.text ++ .ofList closing

/-- Reads an operand.  A number has to be finite. -/
def ofText (text : String) : Except ArgumentFault Argument :=
  match framed? text.toList with
  | some inner =>
    match Ident.ofCharacters inner with
    | .ok word => .ok (.output ⟨word⟩)
    | .error _ => .error ⟨text⟩
  | none =>
    match Number.readFloat? text.toList with
    | some value => if Number.isFinite value then .ok (.literal value) else .error ⟨text⟩
    | none => .error ⟨text⟩

end Argument

end Piecework
