/-
# Piecework.CommandLine.Show — how expressions and their tasks are shown.
-/
import Piecework.CommandLine.Help
import Piecework.Expression
import Piecework.Instant.Text

namespace Piecework.CommandLine

/-- The word for the status of an expression. -/
def statusWord : ExpressionStatus → String
  | .pending => "PENDING"
  | .completed => "COMPLETED"
  | .failed => "ERROR"

/-- The word for the status of a task. -/
def taskStatusWord : TaskStatus → String
  | .pending => "PENDING"
  | .dispatched => "DISPATCHED"
  | .completed => "COMPLETED"
  | .failed => "ERROR"

/-- A number. -/
def numberText (x : Float) : String := Number.plain.text x

/-- The line of a task. -/
def taskLine (t : Task) : String :=
  "    " ++ t.id.text ++ " | " ++ padded 10 (taskStatusWord t.status) ++ " | " ++ t.left.text ++ " "
    ++ String.singleton t.operation.symbol ++ " " ++ t.right.text
    ++ (t.result.elim "" fun r => " = " ++ numberText r)

/-- The lines of an expression with its tasks. -/
def viewLines (v : View) : List String :=
  ["Expression: " ++ v.id.text, "  Text: " ++ v.text, "  Status: " ++ statusWord v.status]
    ++ (v.result.elim [] fun r => ["  Result: " ++ numberText r])
    ++ ["  Created: " ++ v.created.display,
      "  Tasks (" ++ .ofList (Number.decimal v.tasks.length) ++ "):"]
    ++ v.tasks.map taskLine

/-- The line of an expression in a list. -/
def listLine (e : Expression) : String :=
  "  " ++ e.id.text ++ " | " ++ padded 9 (statusWord e.status) ++ " | " ++ e.text ++ " = "
    ++ e.result.elim "?" numberText

/-- The lines of a list of expressions. -/
def listLines (es : List Expression) : List String :=
  ("Expressions (" ++ .ofList (Number.decimal es.length) ++ ")") :: es.map listLine

/-- The status that a word names, in letters of either case. -/
def statusOf? (word : String) : Option ExpressionStatus :=
  [ExpressionStatus.pending, .completed, .failed].find? fun s =>
    s.name.toList = word.toList.map Char.toLower

end Piecework.CommandLine
