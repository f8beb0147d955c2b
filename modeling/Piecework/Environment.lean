/-
# Piecework.Environment — the variables that settings are read from.

A variable is a name with a text.  A number is read only from a text that is one: an empty text, or one
that is not an unsigned number in range, counts as if the variable were not set.
-/
import Piecework.Number.Reader
import Piecework.Registry

namespace Piecework

/-- Texts by name. -/
abbrev Environment := Registry String String

namespace Environment

/-- The text of a variable, or a standard text. -/
def text (env : Environment) (name standard : String) : String := (env.get? name).getD standard

/-- The number below `bound` that a variable holds. -/
def number? (env : Environment) (bound : Nat) (name : String) : Option Nat :=
  (env.get? name).bind fun text => Number.readUnsigned? bound text.toList

/-- Sets a variable that is not set. -/
def define (env : Environment) (name text : String) : Environment :=
  if env.contains name then env else env.push name text

end Environment

end Piecework
