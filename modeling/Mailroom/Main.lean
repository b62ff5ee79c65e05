import Mailroom.Program.Run

/-! The command line. Environment, token file and arguments are read, the program runs, and what it
prints is printed. There is no network: every request is refused, so only what needs none comes to
an end. -/

namespace Mailroom.Program

/-- A wire that leads nowhere, and a clock that stands still. -/
structure Unplugged where

instance : Remote.Wire Unplugged where
  send _ := return .error (.ofMessage "no network")

instance : Clock Unplugged where
  now := return 0
  sleep _ := return ()

/-- The variables that the program looks at. -/
def variableNames : List String :=
  ["MAILQUERY_BATCH_SIZE", "MAILQUERY_BATCH_DELAY_MS", "MAILQUERY_TRUNCATE_OPERANDS",
    "MAILQUERY_TOKEN_FILE", "MAILQUERY_CLIENT_ID", "MAILQUERY_CLIENT_SECRET"]

/-- The variables that are set. -/
def readEnvironment : IO Environment := do
  let found ← variableNames.mapM fun name => do
    return (← IO.getEnv name).map fun value => (name, value)
  return .ofList (found.filterMap fun entry => entry)

/-- The content of a file, if it can be read. -/
def readContent (file : String) : IO (Option String) := do
  try return some (← IO.FS.readFile file) catch _ => return none

/-- The surroundings that the program finds. Local times are universal. -/
def readSurroundings : IO Surroundings := do
  let home := (← IO.getEnv "HOME").getD ""
  let environment ← readEnvironment
  let isTerminal ← (← IO.getStdout).isTty
  let content ← match Configuration.read home environment with
    | .ok c => readContent c.tokenFile
    | .error _ => pure none
  return { home, environment, files := fun _ => content, zone := .universal, isTerminal }

end Mailroom.Program

open Mailroom.Program in
/-- Run the program on the arguments of the command line. -/
def main (arguments : List String) : IO UInt32 := do
  let outcome := run (← readSurroundings) (Unplugged.mk) arguments
  (← IO.getStdout).putStr outcome.output
  (← IO.getStderr).putStr outcome.errors
  return outcome.status.toUInt32
