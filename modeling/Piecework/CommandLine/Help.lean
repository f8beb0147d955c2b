/-
# Piecework.CommandLine.Help — the help pages.

A page says what the verb does and how it is used, and lists verbs, operands and options in two columns.
The second column is broken at blanks so that no line is wider than a hundred characters, as far as
words allow.
-/
import Piecework.CommandLine.Grammar
import Piecework.Environment

namespace Piecework.CommandLine

/-- The name of the program. -/
def program : String := "paral"

/-- So many blanks. -/
def blanks (n : Nat) : String := .ofList (List.replicate n ' ')

/-- A text filled up to a width. -/
def padded (width : Nat) (text : String) : String := text ++ blanks (width - text.length)

/-! ## Columns -/

/-- The words of a text, with the blanks behind each: its letters and the number of blanks. -/
def wordsOf : List Char → List (List Char × Nat)
  | [] => []
  | c :: rest =>
    match c, wordsOf rest with
    | ' ', [] => [([], 1)]
    | ' ', ([], n) :: more => ([], n + 1) :: more
    | ' ', more => ([], 1) :: more
    | c, [] => [([c], 0)]
    | c, ([], n) :: more => ([c], n) :: more
    | c, (letters, n) :: more => (c :: letters, n) :: more

/-- Sets words on a line that is `used` characters wide so far, and breaks before a word that does not
fit; `gap` is the number of blanks due before the next word. -/
def wrap (width : Nat) : Nat → Nat → List (List Char × Nat) → List Char
  | _, _, [] => []
  | used, gap, (letters, behind) :: rest =>
    if 0 < used ∧ width < used + gap + letters.length then
      '\n' :: letters ++ wrap width letters.length behind rest
    else List.replicate gap ' ' ++ letters ++ wrap width (used + gap + letters.length) behind rest

/-- A text with blanks at the start of all lines but the first. -/
def indented (n : Nat) (text : List Char) : List Char :=
  text.flatMap fun c => if c = '\n' then '\n' :: List.replicate n ' ' else [c]

/-- The width of a page. -/
def pageWidth : Nat := 100

/-- A line of two columns, the second of which starts at a position. -/
def row (start : Nat) (left right : String) : String :=
  padded start left
    ++ .ofList (indented start (wrap (pageWidth - start) 0 0 (wordsOf right.toList)))
    ++ "\n"

/-! ## Options -/

/-- An option as it is written on a command line. -/
def Choice.usage (c : Choice) : String :=
  "--" ++ c.long ++ (c.value.elim "" fun v => " <" ++ v ++ ">")

/-- The first column of an option. -/
def Choice.left (c : Choice) : String :=
  (c.short.elim "      " fun letter => "  -" ++ String.singleton letter ++ ", ") ++ c.usage

/-- The second column of an option: what it is for, its variable and its standard value. -/
def Choice.right (env : Environment) (c : Choice) : String :=
  c.help ++ (c.standIn.elim "" fun v => " [env: " ++ v ++ "=" ++ (env.get? v).getD "" ++ "]")
    ++ (c.standard.elim "" fun v => " [default: " ++ v ++ "]")

/-- The order of options on a page: by rank, and of one rank by name, the short one if there is one. -/
def Choice.before (a b : Choice) : Bool :=
  let key (c : Choice) : String := c.short.elim c.long fun letter => .ofList [letter, '0']
  if a.rank = b.rank then key a ≤ key b else a.rank < b.rank

/-- The longest of some texts. -/
def longest (texts : List String) : Nat := (texts.map String.length).foldl max 0

/-- The lines of options. -/
def optionRows (env : Environment) (choices : List Choice) : String :=
  let start := longest (choices.map Choice.usage) + 8
  "Options:\n" ++ String.join ((choices.mergeSort Choice.before).map fun c =>
    row start c.left (c.right env))

/-! ## Pages -/

/-- The line that says how a verb is used. -/
def usageLine (rest : String) : String := "Usage: " ++ program ++ " " ++ rest ++ "\n\n"

/-- The page of a verb. -/
def verbPage (env : Environment) (v : Verb) : String :=
  let operand (o : Operand) : String := "<" ++ o.name ++ ">"
  v.about ++ "\n\n"
    ++ usageLine (v.name ++ " [OPTIONS]" ++ v.operand.elim "" fun o => " " ++ operand o)
    ++ (v.operand.elim "" fun o =>
      "Arguments:\n" ++ row ((operand o).length + 4) ("  " ++ operand o) o.help ++ "\n")
    ++ optionRows env v.choices

/-- What the verb that shows pages is for. -/
def aboutHelp : String := "Print this message or the help of the given subcommand(s)"

/-- The first page. -/
def firstPage (env : Environment) : String :=
  let verbs := Verb.all.map (fun v => (v.name, v.about)) ++ [("help", aboutHelp)]
  let start := longest (verbs.map Prod.fst) + 4
  "Distributed arithmetic expression calculator\n\n" ++ usageLine "[OPTIONS] <COMMAND>"
    ++ "Commands:\n" ++ String.join (verbs.map fun v => row start ("  " ++ v.1) v.2) ++ "\n"
    ++ optionRows env commonChoices

/-- The page of the verb that shows pages. -/
def helpPage : String :=
  aboutHelp ++ "\n\n" ++ usageLine "help [COMMAND]..." ++ "Arguments:\n"
    ++ "  [COMMAND]...  Print help for the subcommand(s)\n"

/-- The text of a page. -/
def Page.text (env : Environment) : Page → String
  | .first => firstPage env
  | .verb v => verbPage env v
  | .help => helpPage

end Piecework.CommandLine
