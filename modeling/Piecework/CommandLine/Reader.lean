/-
# Piecework.CommandLine.Reader — reads the words of a command line.

Words are read from left to right.  A word that starts with a dash is an option, or a misuse; `--` makes
all words behind it operands.  A value stands in the word behind its option or, behind an equals sign,
in the same word.  No option is given twice on the same side of the verb, and there are no more operands
than the verb has.

Asking for help ends reading there and then, so it counts whatever is missing by then or comes behind.
A value is judged only when the word behind it is read.
-/
import Piecework.CommandLine.Grammar
import Piecework.Environment

namespace Piecework.CommandLine

/-- What the words say. -/
structure Given where
  /-- Values by the long names of their options. -/
  values : List (String × String)
  flags : List String
  operand : Option String

/-- Why reading ends early. -/
inductive Stop where
  | misuse
  | help
deriving DecidableEq, Repr

/-- The options and operands on one side of the verb. -/
structure Side where
  choices : List Choice
  takesOperand : Bool
  /-- The words that end this side. -/
  verbs : List String

/-- How far the words of one side have been read. -/
structure Scan where
  given : Given
  /-- An option whose value is not taken in yet, with that value if it was read. -/
  pending : Option (Choice × Option String)
  /-- Whether all further words are operands. -/
  trailing : Bool

namespace Scan

/-- Nothing has been read. -/
def start : Scan := ⟨⟨[], [], none⟩, none, false⟩

/-- Takes a value in. -/
def takeValue (s : Scan) (c : Choice) (text : String) : Except Stop Scan :=
  if s.given.values.any fun v => v.1 = c.long then .error .misuse
  else if c.numeric ∧ (Number.readUnsigned? (2 ^ 64) text.toList).isNone then .error .misuse
  else .ok { s with given := { s.given with values := s.given.values ++ [(c.long, text)] } }

/-- Takes in what is pending. -/
def settle (s : Scan) : Except Stop Scan :=
  match s.pending with
  | none => .ok s
  | some (_, none) => .error .misuse
  | some (c, some text) => takeValue { s with pending := none } c text

/-- Takes in an option without value. -/
def takeFlag (s : Scan) (c : Choice) : Except Stop Scan := do
  let s ← s.settle
  if c = helpChoice then .error .help
  else if c.long ∈ s.given.flags then .error .misuse
  else .ok { s with given := { s.given with flags := s.given.flags ++ [c.long] } }

/-- Reads an option by its long name. -/
def long (side : Side) (s : Scan) (name : List Char) (attached : Option (List Char)) :
    Except Stop Scan :=
  match side.choices.find? fun c => c.long = .ofList name with
  | none => .error .misuse
  | some c =>
    match c.value, attached with
    | none, none => s.takeFlag c
    | none, some _ => .error .misuse
    | some _, some text => do (← s.settle).takeValue c (.ofList text)
    | some _, none => do return { ← s.settle with pending := some (c, none) }

/-- Reads options by their short names. -/
def short (side : Side) (s : Scan) : List Char → Except Stop Scan
  | [] => .ok s
  | letter :: rest =>
    match side.choices.find? fun c => c.short = some letter with
    | none => .error .misuse
    | some c => do short side (← s.takeFlag c) rest

/-- Reads a value that was waited for, or an operand. -/
def plain (side : Side) (s : Scan) (word : String) : Except Stop Scan :=
  match s.pending, s.trailing with
  | some (c, none), false => .ok { s with pending := some (c, some word) }
  | _, _ => do
    let s ← s.settle
    if side.takesOperand ∧ s.given.operand.isNone then
      .ok { s with given := { s.given with operand := some word } }
    else .error .misuse

/-- Reads a word that is no verb. -/
def word (side : Side) (s : Scan) (w : String) : Except Stop Scan :=
  if s.trailing then s.plain side w
  else match w.toList with
    | ['-', '-'] => .ok { s with trailing := true }
    | '-' :: '-' :: name =>
      s.long side (name.takeWhile (· ≠ '=')) (match name.dropWhile (· ≠ '=') with
        | [] => none
        | _ :: text => some text)
    | '-' :: c :: rest => s.short side (c :: rest)
    | _ => s.plain side w

/-- Whether a value is waited for. -/
def isWaiting (s : Scan) : Bool := s.pending.any fun p => p.2.isNone

/-- Reads words up to a verb: what was read, and the verb with the words behind it. -/
def words (side : Side) (s : Scan) : List String → Except Stop (Scan × Option (String × List String))
  | [] => .ok (s, none)
  | w :: rest =>
    -- The word behind an option that waits for a value is this value, even if a verb is called so.
    if !s.trailing ∧ !s.isWaiting ∧ w ∈ side.verbs then .ok (s, some (w, rest))
    else do words side (← s.word side w) rest

end Scan

/-! ## Both sides -/

/-- The side in front of the verb. -/
def frontSide : Side := ⟨commonChoices, false, "help" :: Verb.all.map Verb.name⟩

/-- The side behind a verb. -/
def Verb.side (v : Verb) : Side := ⟨v.choices, v.operand.isSome, []⟩

/-- The value of an option: the one given, else that of its variable, else the standard one. -/
def Choice.text (c : Choice) (env : Environment) (given : Option String) : Option String :=
  given <|> (c.standIn.bind env.get?) <|> c.standard

/-- What a whole command line says. -/
structure Words where
  verb : Verb
  url : String
  verbose : Bool
  given : Given

/-- What a command line comes to. -/
inductive Reading where
  | run (words : Words)
  | help (page : Page)
  | misuse

/-- The value of an option behind a verb. -/
def Given.text (g : Given) (env : Environment) (c : Choice) : Option String :=
  c.text env (g.values.lookup c.long)

/-- Whether no value that counts is a bad number; it may come from a variable. -/
def Given.hasNumbers (g : Given) (env : Environment) (choices : List Choice) : Bool :=
  choices.all fun c => !c.numeric || (g.text env c).all fun text =>
    (Number.readUnsigned? (2 ^ 64) text.toList).isSome

/-- Reads the words behind a verb, and takes in what is left from in front of it. -/
def wordsBehind (env : Environment) (front : Scan) (v : Verb) (words : List String) :
    Except Stop Words := do
  let (behind, _) ← Scan.start.words v.side words
  let behind ← behind.settle
  let front ← front.settle
  let given := behind.given
  if (v.operand.isSome ∧ given.operand.isNone) ∨ !given.hasNumbers env v.choices then .error .misuse
  else
    let url := urlChoice.text env (given.values.lookup "url" <|> front.given.values.lookup "url")
    .ok ⟨v, url.getD "", (given.flags ++ front.given.flags).contains "verbose", given⟩

/-- Reads the words behind the word that asks for pages. -/
def readHelp : List String → Reading
  | [] => .help .first
  | [word] =>
    if word = "help" then .help .help
    else match Verb.ofName? word with
      | some v => .help (.verb v)
      | none => .misuse
  | _ => .misuse

/-- What stopped reading, where a page is asked for. -/
def Reading.ofStop (page : Page) : Stop → Reading
  | .help => .help page
  | .misuse => .misuse

/-- Reads a command line. -/
def read (env : Environment) (words : List String) : Reading :=
  match Scan.start.words frontSide words with
  | .error stop => .ofStop .first stop
  | .ok (_, none) => .misuse
  | .ok (front, some (word, rest)) =>
    match Verb.ofName? word with
    | none => readHelp rest
    | some v =>
      match wordsBehind env front v rest with
      | .ok words => .run words
      | .error stop => .ofStop (.verb v) stop

end Piecework.CommandLine
