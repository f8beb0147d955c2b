/-
# Piecework.Main — the program of the command line.

It finds the settings file in the present directory or one above it, reads the variables that settings
and that file can name, runs the command line and writes what comes of it.  Identities are drawn at
random behind the present time.  It opens no connections: what needs a service elsewhere ends with the
complaint that the request failed.
-/
import Piecework.CommandLine
import Std.Time.DateTime.Timestamp

namespace Piecework.Program

/-- A directory and those above it, nearest first. -/
def directories (path : String) : List String :=
  let steps := path.splitOn "/"
  (List.range steps.length).map fun n => "/".intercalate (steps.take (steps.length - n))

/-- The content of the settings file of a directory, if it can be read. -/
def settingsIn (directory : String) : IO (Option String) :=
  try return some (← IO.FS.readFile (directory ++ "/.env")) catch _ => return none

/-- The names that a settings file may refer to: its runs of letters, digits, points and underscores. -/
def namesIn (content : String) : List String :=
  let cut := content.toList.map fun c =>
    if Text.isAlphanumeric c || c = '_' || c = '.' then c else ' '
  ((String.ofList cut).splitOn " ").filter fun name => name ≠ ""

/-- Those of some variables that are set. -/
def variablesAmong (names : List String) : IO Environment := do
  let entries ← names.eraseDups.filterMapM fun name => do
    return (← IO.getEnv name).map fun text => (name, text)
  return ⟨entries⟩

/-- A random number of so many bytes. -/
def randomNumber (bytes : Nat) : IO Nat := do
  return (← IO.getRandomBytes (.ofNat bytes)).toList.foldl (fun n b => 256 * n + b.toNat) 0

/-- Runs the command line. -/
def run (words : List String) : IO UInt32 := do
  let settings ← (directories (← IO.currentDir).toString).findSomeM? settingsIn
  let environment ← variablesAmong (Config.names ++ namesIn (settings.getD ""))
  let millis := (← Std.Time.Timestamp.now).toMillisecondsSinceUnixEpoch.val
  let first := millis.toNat * 2 ^ 80 + (← randomNumber 10)
  let around : CommandLine.Surroundings Unit :=
    { environment := environment
      settings := settings
      transport := .unreachable
      mint := ⟨⟨.ofNat 128 first⟩, fun n => ⟨.ofNat 128 (first + n + 1)⟩⟩
      now := (Instant.ofMillis? millis).getD .epoch
      patience := 0 }
  let exit := (CommandLine.run around () words).answer
  IO.print exit.output
  match exit.complaint with
  | some complaint => IO.eprintln ("Error: " ++ complaint.message)
  | none => pure ()
  return .ofNat exit.code

end Piecework.Program

/-- Runs the command line. -/
def main (words : List String) : IO UInt32 := Piecework.Program.run words
