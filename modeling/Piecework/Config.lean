/-
# Piecework.Config — the settings of the service and its workers.

Every setting has a standard value and is read from a variable.  Times are counts of milliseconds in a
64-bit word, a port is a 16-bit word, and there is always at least one worker.
-/
import Piecework.Environment
import Piecework.Lease
import Piecework.Plan

namespace Piecework

/-- The settings. -/
structure Config where
  times : OperationTimes
  /-- The interface that the service listens on. -/
  host : String
  port : Nat
  lease : LeasePolicy
  /-- The number of workers. -/
  power : Nat
  /-- Where workers find the service. -/
  url : String
  /-- How long a worker waits when there is no task. -/
  poll : Span

namespace Config

/-- The number of milliseconds that a variable holds, or a standard number. -/
def millis (env : Environment) (name : String) (standard : Nat) : Span :=
  .ofMillis ((env.number? (2 ^ 64) name).getD standard)

/-- The settings that an environment asks for. -/
def ofEnvironment (env : Environment) : Config where
  times := {
    add := millis env "TIME_ADDITION_MS" 1000
    subtract := millis env "TIME_SUBTRACTION_MS" 1000
    multiply := millis env "TIME_MULTIPLICATIONS_MS" 1000
    divide := millis env "TIME_DIVISIONS_MS" 1000 }
  host := env.text "ORCHESTRATOR_HOST" "0.0.0.0"
  port := (env.number? (2 ^ 16) "ORCHESTRATOR_PORT").getD 8080
  lease := {
    timeout := millis env "LEASE_TIMEOUT_MS" 30000
    reapInterval := millis env "LEASE_REAP_INTERVAL_MS" 1000 }
  power := max 1 ((env.number? (2 ^ 64) "COMPUTING_POWER").getD 1)
  url := env.text "ORCHESTRATOR_URL" "http://127.0.0.1:8080"
  poll := millis env "AGENT_POLL_INTERVAL_MS" 500

/-- The variables that settings are read from. -/
def names : List String :=
  ["TIME_ADDITION_MS", "TIME_SUBTRACTION_MS", "TIME_MULTIPLICATIONS_MS", "TIME_DIVISIONS_MS",
    "ORCHESTRATOR_HOST", "ORCHESTRATOR_PORT", "LEASE_TIMEOUT_MS", "LEASE_REAP_INTERVAL_MS",
    "COMPUTING_POWER", "ORCHESTRATOR_URL", "AGENT_POLL_INTERVAL_MS"]

/-- A number in decimal digits. -/
def digits (n : Nat) : String := .ofList (Number.decimal n)

/-- The address that the service listens on. -/
def bind (c : Config) : String := c.host ++ ":" ++ digits c.port

/-- The lines that show the settings. -/
def summary (c : Config) : List Line :=
  [.info "Config loaded:",
    .info ("  server:      " ++ c.bind),
    .info ("  operations:  +=" ++ c.times.add.text ++ " -=" ++ c.times.subtract.text ++ " *="
      ++ c.times.multiply.text ++ " /=" ++ c.times.divide.text),
    .info ("  lease:       timeout=" ++ c.lease.timeout.text ++ " reap_interval="
      ++ c.lease.reapInterval.text),
    .info ("  agent:       computing_power=" ++ digits c.power ++ " url=" ++ c.url)]

end Config

end Piecework
