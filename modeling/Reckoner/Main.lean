/-
Reckoner.Main — reads the environment, the options and the input.
-/
import Reckoner.Command
import Reckoner.Service.Basic

open Reckoner

/-- The variables of the given names that have a value. -/
def readVariables : List String → IO (List (String × String))
  | [] => pure []
  | name :: names => do
    let rest ← readVariables names
    match ← IO.getEnv name with
    | some value => pure ((name, value) :: rest)
    | none => pure rest

/-- Works out the lines of the input until it ends. -/
partial def evaluateLines (s : Settings) (d : Dispatcher MemoryLedger) : IO Unit := do
  let line ← (← IO.getStdin).getLine
  if line.isEmpty then pure ()
  else
    let (shown, d) := Command.evaluateLine s d (String.ofList (line.toList.filter (· ≠ '\n')))
    IO.println shown
    evaluateLines s d

/-- Reads the options and does what they ask for. -/
def main (args : List String) : IO UInt32 := do
  match Command.Options.read {} args with
  | .error e =>
    IO.eprintln e.message
    IO.eprintln Command.usage
    pure 2
  | .ok options =>
    if options.showHelp then
      IO.println Command.usage
      pure 0
    else if options.showVersion then
      IO.println ("reckoner " ++ Service.version)
      pure 0
    else
      let named ← IO.getEnv Settings.profileVariable
      let profile := options.profile.getD (named.getD "")
      let found ← readVariables (Settings.variableNames profile)
      let settings := options.apply (.forProfile (.ofList found) profile)
      if options.showSettings then
        for line in settings.summary do
          IO.println line
      else
        evaluateLines settings (.start settings.timings {})
      pure 0
