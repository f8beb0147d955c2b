/-
# Piecework.Environment.Dotenv — variables from a settings file.

The file is a sequence of lines `name=value`, with `export` in front if one likes.  A line goes on past
its end while a quote is open.  A `#` at the start of a line, or after a single blank outside quotes,
starts a comment.  Values know two kinds of quotes: between apostrophes every character stands for
itself, between double quotes and outside a backslash escapes and `$name` or `${name}` stands for the
text of another variable.

Variables that are set are left alone.  Loading ends at the first faulty line; the variables of the
lines before stay.
-/
import Piecework.Environment
import Piecework.Text.Alphanumeric
import Piecework.Text.Blank

namespace Piecework.Dotenv

open Piecework.Text

/-! ## Lines -/

/-- What the characters of a line so far leave open. -/
inductive Open where
  | nothing
  /-- A single blank, behind which a comment may start. -/
  | blank
  | escape
  | strong
  | strongEscape
  | weak
  | weakEscape
deriving DecidableEq, Repr

/-- What a character leaves open that stands outside quotes. -/
def Open.bare (c : Char) : Open :=
  if c = '\\' then .escape
  else if c = '"' then .weak
  else if c = '\'' then .strong
  else .nothing

/-- Reads one character; none for the start of a comment. -/
def Open.next : Open → Char → Option Open
  | .nothing, c => some (if isBlank c ∧ c ≠ '\n' ∧ c ≠ '\r' then .blank else .bare c)
  | .blank, c => if c = '#' then none else some (.bare c)
  | .escape, _ => some .nothing
  | .strong, c => some (if c = '\\' then .strongEscape else if c = '\'' then .nothing else .strong)
  | .strongEscape, _ => some .strong
  | .weak, c => some (if c = '\\' then .weakEscape else if c = '"' then .nothing else .weak)
  | .weakEscape, _ => some .weak

/-- What stands behind the end of the present line. -/
def skipLine (text : List Char) : List Char := (text.dropWhile (· ≠ '\n')).drop 1

/-- The characters up to the end of a line and those behind it; none if the text ends inside. -/
def takeLine : Open → List Char → Option (List Char × List Char)
  | state, [] => if state = .nothing then some ([], []) else none
  | state, c :: rest =>
    match state.next c with
    | none => some ([], skipLine rest)
    | some after =>
      if c = '\n' ∧ after = .nothing then some ([], rest)
      else (takeLine after rest).map fun (line, rest) => (c :: line, rest)

/-- Whether the text starts with a line that is a comment. -/
def startsWithComment (text : List Char) : Bool :=
  (skipBlanks (text.takeWhile (· ≠ '\n'))).head? = some '#'

/-- The first line of a text and what stands behind it; none if the text ends inside. -/
def firstLine (text : List Char) : Option (List Char × List Char) :=
  if startsWithComment text then some ([], skipLine text) else takeLine .nothing text

theorem length_skipLine_le (text : List Char) : (skipLine text).length ≤ text.length := by
  have := (List.dropWhile_sublist (l := text) (· ≠ '\n')).length_le
  simp only [skipLine, List.length_drop]
  omega

theorem length_skipLine_cons (c : Char) (text : List Char) :
    (skipLine (c :: text)).length ≤ text.length := by
  by_cases h : c = '\n'
  · simp [skipLine, h]
  · have := length_skipLine_le text
    simpa [skipLine, h] using this

theorem length_takeLine {state : Open} {text line rest : List Char}
    (h : takeLine state text = some (line, rest)) : rest.length ≤ text.length - 1 := by
  induction text generalizing state line with
  | nil =>
    simp only [takeLine] at h
    split at h <;> simp_all
  | cons c text ih =>
    simp only [takeLine] at h
    split at h
    · obtain ⟨-, rfl⟩ := Prod.mk.inj (Option.some.inj h)
      exact length_skipLine_le text
    · split at h
      · obtain ⟨-, rfl⟩ := Prod.mk.inj (Option.some.inj h)
        simp
      · obtain ⟨⟨more, left⟩, hm, he⟩ := Option.map_eq_some_iff.1 h
        cases he
        have : left.length ≤ text.length - 1 := ih hm
        simp only [List.length_cons]
        omega

/-- A line takes at least one character of a text that is not empty. -/
theorem length_firstLine {c : Char} {text line rest : List Char}
    (h : firstLine (c :: text) = some (line, rest)) : rest.length < (c :: text).length := by
  simp only [firstLine] at h
  split at h
  · obtain ⟨-, rfl⟩ := Prod.mk.inj (Option.some.inj h)
    exact Nat.lt_succ_of_le (length_skipLine_cons c text)
  · have := length_takeLine h
    simp only [List.length_cons] at this ⊢
    omega

/-! ## Values -/

/-- Where in a value a character stands; `quoted` is set between double quotes. -/
inductive Place where
  | bare (quoted : Bool)
  | escape (quoted : Bool)
  /-- Between apostrophes. -/
  | strong
  /-- In a name behind `$`; the name so far. -/
  | name (quoted : Bool) (sofar : List Char)
  /-- In a name behind `${`; the name so far. -/
  | braced (quoted : Bool) (sofar : List Char)
  /-- Behind the value, where only a comment may follow. -/
  | behind

/-- The text of a variable; the empty one if it is not set. -/
def lookUp (env : Environment) (name : List Char) : List Char := (env.text (.ofList name) "").toList

/-- What an escaped character stands for. -/
def unescape (c : Char) : Option Char :=
  if c = '\\' ∨ c = '\'' ∨ c = '"' ∨ c = '$' ∨ c = ' ' then some c
  else if c = 'n' then some '\n'
  else none

/-- The text that a value stands for from a place on. -/
def readValue (env : Environment) : Place → List Char → Option (List Char)
  | .bare quoted, [] => if quoted then none else some []
  | .bare quoted, c :: rest =>
    if c = '$' then readValue env (.name quoted []) rest
    else if c = '\\' then readValue env (.escape quoted) rest
    else if c = '"' then readValue env (.bare (!quoted)) rest
    else if quoted then (readValue env (.bare true) rest).map (c :: ·)
    else if c = '\'' then readValue env .strong rest
    else if c = ' ' ∨ c = '\t' then readValue env .behind rest
    else (readValue env (.bare false) rest).map (c :: ·)
  | .escape quoted, [] => if quoted then none else some []
  | .escape quoted, c :: rest =>
    match unescape c with
    | some c => (readValue env (.bare quoted) rest).map (c :: ·)
    | none => none
  | .strong, [] => none
  | .strong, c :: rest =>
    if c = '\'' then readValue env (.bare false) rest else (readValue env .strong rest).map (c :: ·)
  | .name quoted sofar, [] => if quoted then none else some (lookUp env sofar)
  | .name quoted sofar, c :: rest =>
    if isAlphanumeric c then readValue env (.name quoted (sofar ++ [c])) rest
    -- A brace opens a name only right behind the dollar sign.
    else if c = '{' ∧ sofar = [] then readValue env (.braced quoted []) rest
    else if c = '$' then (readValue env (.name quoted []) rest).map (lookUp env sofar ++ ·)
    else (readValue env (.bare quoted) rest).map (lookUp env sofar ++ c :: ·)
  | .braced _ _, [] => none
  | .braced quoted sofar, c :: rest =>
    if c = '}' then (readValue env (.bare quoted) rest).map (lookUp env sofar ++ ·)
    else readValue env (.braced quoted (sofar ++ [c])) rest
  | .behind, [] => some []
  | .behind, c :: rest =>
    if c = ' ' ∨ c = '\t' then readValue env .behind rest
    else if c = '#' then some []
    else none

/-! ## Definitions -/

/-- A character that a name may start with. -/
def isNameStart (c : Char) : Bool := c.isAlpha || c = '_'

/-- A character that a name may go on with. -/
def isNamePart (c : Char) : Bool := c.isAlphanum || c = '_' || c = '.'

/-- A name and what stands behind it and the blanks. -/
def readName (text : List Char) : Option (String × List Char) :=
  if text.head?.any isNameStart then
    some (.ofList (text.takeWhile isNamePart), skipBlanks (text.dropWhile isNamePart))
  else none

/-- What stands behind an equals sign and the blanks. -/
def readEquals : List Char → Option (List Char)
  | '=' :: rest => some (skipBlanks rest)
  | _ => none

/-- A name and the text of its value.  The word `export` in front does not count, unless it is itself
what is defined. -/
def readHead (text : List Char) : Option (String × List Char) := do
  let (name, rest) ← readName text
  if name = "export" ∧ rest.head? ≠ some '=' then
    let (name, rest) ← readName rest
    return (name, ← readEquals rest)
  else return (name, ← readEquals rest)

/-- The definition on a line; none for a faulty line, and nothing for an empty one or a comment. -/
def readLine (env : Environment) (line : List Char) : Option (Option (String × String)) :=
  let text := skipBlanks (trimEnd line)
  if text = [] ∨ text.head? = some '#' then some none
  else do
    let (name, rest) ← readHead text
    if rest = [] ∨ rest.head? = some '#' then return some (name, "")
    else return some (name, .ofList (← readValue env (.bare false) rest))

/-! ## Loading -/

/-- Why loading ends before the end of the file. -/
inductive Fault where
  /-- A line is no definition. -/
  | line
  /-- The file ends inside a line. -/
  | unfinished
  /-- A value holds the character that no variable can hold. -/
  | nul
deriving DecidableEq, Repr

/-- Sets the variables that a settings file defines and that are not set. -/
def load (env : Environment) : List Char → Environment × Option Fault
  | [] => (env, none)
  | c :: text =>
    match h : firstLine (c :: text) with
    | none => (env, some .unfinished)
    | some (line, rest) =>
      have : rest.length < (c :: text).length := length_firstLine h
      match readLine env line with
      | none => (env, some .line)
      | some none => load env rest
      | some (some (name, value)) =>
        -- A value that no variable can hold matters only where the variable is to be set.
        if value.contains '\x00' ∧ !env.contains name then (env, some .nul)
        else load (env.define name value) rest
termination_by text => text.length
decreasing_by all_goals assumption

/-- Loads a settings file, which may start with a byte order mark. -/
def loadFile (env : Environment) (content : String) : Environment × Option Fault :=
  match content.toList with
  | '\ufeff' :: text => load env text
  | text => load env text

end Piecework.Dotenv
