/-
# Piecework.CommandLine.Grammar — the verbs of the command line and their options.

A command line names a verb, its operand and options in any order.  Some options may also stand in front
of the verb.  This table is what both the reader and the help pages go by.
-/
namespace Piecework.CommandLine

/-- An option.  Options with a short form take no value. -/
structure Choice where
  long : String
  short : Option Char
  /-- The name of the value that it takes, if it takes one. -/
  value : Option String
  /-- Whether the value is a 64-bit number. -/
  numeric : Bool
  help : String
  /-- The variable that stands in for it. -/
  standIn : Option String
  /-- The value if nothing is given. -/
  standard : Option String
  /-- The rank of its line on a help page. -/
  rank : Nat
deriving DecidableEq, Repr

/-- What stands behind a verb without being an option. -/
structure Operand where
  name : String
  help : String
deriving DecidableEq, Repr

/-- An option that is either given or not. -/
def flag (long help : String) (rank : Nat) : Choice := ⟨long, none, none, false, help, none, none, rank⟩

/-- Where the service is. -/
def urlChoice : Choice where
  long := "url"
  short := none
  value := some "URL"
  numeric := false
  help := "Orchestrator base URL"
  standIn := some "ORCHESTRATOR_URL"
  standard := some "http://127.0.0.1:8080"
  rank := 0

/-- Whether to show what is done on the way. -/
def verboseChoice : Choice := { flag "verbose" "Log progress to stderr" 1 with short := some 'v' }

/-- Whether to show a help page. -/
def helpChoice : Choice := { flag "help" "Print help" 999 with short := some 'h' }

/-- The options that may stand in front of the verb too. -/
def commonChoices : List Choice := [urlChoice, verboseChoice, helpChoice]

/-- The number of workers. -/
def workersChoice : Choice where
  long := "workers"
  short := none
  value := some "WORKERS"
  numeric := true
  help := "Number of workers"
  standIn := some "COMPUTING_POWER"
  standard := some "1"
  rank := 0

/-- The status that listed expressions have. -/
def statusChoice : Choice where
  long := "status"
  short := none
  value := some "STATUS"
  numeric := false
  help := "Filter by status (pending, completed, error)"
  standIn := none
  standard := none
  rank := 0

/-- What a command line asks for. -/
inductive Verb where
  | eval
  | submit
  | get
  | list
deriving DecidableEq, Repr

namespace Verb

/-- All verbs in the order of the help page. -/
def all : List Verb := [.eval, .submit, .get, .list]

/-- The word for a verb. -/
def name : Verb → String
  | .eval => "eval"
  | .submit => "submit"
  | .get => "get"
  | .list => "list"

/-- The verb of a word. -/
def ofName? (word : String) : Option Verb := all.find? fun v => v.name = word

/-- What a verb does. -/
def about : Verb → String
  | .eval => "Evaluate an expression in process, without a server"
  | .submit => "Submit an expression to the orchestrator"
  | .get => "Show one expression"
  | .list => "List expressions"

/-- What stands behind a verb. -/
def operand : Verb → Option Operand
  | .eval => some ⟨"EXPRESSION", "Infix expression, e.g. \"2+2*2\""⟩
  | .submit => some ⟨"EXPRESSION", "Infix expression"⟩
  | .get => some ⟨"ID", "Expression ID"⟩
  | .list => none

/-- The options of a verb alone. -/
def ownChoices : Verb → List Choice
  | .eval => [workersChoice, flag "instant" "Ignore configured operation times" 1,
      flag "tasks" "Print the task graph" 2]
  | .submit => [flag "wait" "Wait for the result" 0]
  | .get => [flag "wait" "Wait until the expression finishes" 0]
  | .list => [statusChoice]

/-- All options of a verb. -/
def choices (v : Verb) : List Choice := v.ownChoices ++ commonChoices

end Verb

/-- A help page. -/
inductive Page where
  | first
  /-- The page of a verb. -/
  | verb (v : Verb)
  /-- The page of the word that asks for pages. -/
  | help
deriving DecidableEq, Repr

end Piecework.CommandLine
