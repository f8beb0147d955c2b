/-
# Piecework.Operation — the four binary operations.

An operation is applied to two doubles.  Division by either zero fails, and so does any result that is
not finite: a value that leaves a task is always a finite number.  The multiplying operations bind
tighter than the adding ones.
-/
import Piecework.Number.Layout

namespace Piecework

/-- A binary operation on doubles. -/
inductive Operation where
  | add
  | subtract
  | multiply
  | divide
deriving DecidableEq, Repr

/-- Why an operation has no value. -/
inductive ArithmeticFault where
  /-- The right operand of a division is zero. -/
  | divisionByZero
  /-- The result is infinite or no number. -/
  | notFinite (lhs : Float) (operation : Operation) (rhs : Float)

namespace Operation

/-- The four operations in the order in which settings list them. -/
def all : List Operation := [.add, .subtract, .multiply, .divide]

/-- The character that stands for the operation. -/
def symbol : Operation → Char
  | .add => '+'
  | .subtract => '-'
  | .multiply => '*'
  | .divide => '/'

/-- The operation that a character stands for. -/
def ofSymbol? (c : Char) : Option Operation := all.find? fun o => o.symbol == c

/-- How tightly the operation binds. -/
def precedence : Operation → Nat
  | .add | .subtract => 1
  | .multiply | .divide => 2

/-- The plain double arithmetic behind an operation. -/
def compute : Operation → Float → Float → Float
  | .add, lhs, rhs => lhs + rhs
  | .subtract, lhs, rhs => lhs - rhs
  | .multiply, lhs, rhs => lhs * rhs
  | .divide, lhs, rhs => lhs / rhs

/-- Applies an operation; only finite results count. -/
def apply (operation : Operation) (lhs rhs : Float) : Except ArithmeticFault Float :=
  if operation = .divide ∧ rhs == 0 then .error .divisionByZero
  else
    let value := operation.compute lhs rhs
    if Number.isFinite value then .ok value else .error (.notFinite lhs operation rhs)

/-- A character stands for an operation exactly when it is that operation's symbol. -/
theorem ofSymbol?_eq_some_iff {c : Char} {o : Operation} : ofSymbol? c = some o ↔ o.symbol = c := by
  constructor
  · intro h
    simpa using List.find?_some h
  · rintro rfl
    cases o <;> decide

end Operation

/-- The wording of an arithmetic fault. -/
def ArithmeticFault.message : ArithmeticFault → String
  | .divisionByZero => "division by zero"
  | .notFinite lhs operation rhs =>
    "result of " ++ Number.plain.text lhs ++ " " ++ String.singleton operation.symbol ++ " "
      ++ Number.plain.text rhs ++ " is not a finite number"

end Piecework
