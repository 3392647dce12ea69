/-
Reckoner.Command — the command line.

The command works out formulas in one process: each line of the input is handed
to a dispatcher over a ledger in memory, agents work until no task is live, and
what became of the formula is printed. With `--settings` it prints the settings
instead. Other options override settings.

  1. Options
  2. Reading options
  3. One line of input
-/
import Reckoner.Ledger.Memory
import Reckoner.Settings
import Reckoner.Worker.Agent

namespace Reckoner.Command

/-! ## 1. Options -/

/-- What the options ask for. -/
structure Options where
  showHelp : Bool := false
  showVersion : Bool := false
  showSettings : Bool := false
  profile : Option String := none
  port : Option Nat := none
  databaseUrl : Option String := none
  orchestratorUrl : Option String := none
  computingPower : Option Nat := none
  pollIntervalMs : Option Nat := none

/-- Why options cannot be taken. -/
inductive UsageError where
  | unknownOption (option : String)
  | missingValue (option : String)
  | invalidValue (option value : String)

/-- The error in words. -/
def UsageError.message : UsageError → String
  | .unknownOption option => "unknown option: " ++ option
  | .missingValue option => "a value is required for " ++ option
  | .invalidValue option value => "invalid value for " ++ option ++ ": " ++ value

/-- What the options are. -/
def usage : String :=
  "usage: reckoner [--settings] [--profile NAME] [--port N] [--database-url URL]\n" ++
  "                [--orchestrator-url URL] [--computing-power N] [--poll-interval-ms N]\n" ++
  "                [--help] [--version]\n" ++
  "Works out the formulas on standard input, one a line."

/-! ## 2. Reading options -/

/-- The options with a number below `limit` set. -/
def withNumber (o : Options) (option value : String) (limit : Nat)
    (set : Nat → Options → Options) : Except UsageError Options :=
  match Text.unsignedBelow? limit value with
  | some n => .ok (set n o)
  | none => .error (.invalidValue option value)

/-- The options with the value of one more. -/
def withValue (o : Options) (option value : String) : Except UsageError Options :=
  match option with
  | "--profile" => .ok { o with profile := some value }
  | "--port" => withNumber o option value (2 ^ 16) fun n o => { o with port := some n }
  | "--database-url" => .ok { o with databaseUrl := some value }
  | "--orchestrator-url" => .ok { o with orchestratorUrl := some value }
  | "--computing-power" =>
    withNumber o option value (2 ^ 64) fun n o => { o with computingPower := some n }
  | "--poll-interval-ms" =>
    withNumber o option value (2 ^ 64) fun n o => { o with pollIntervalMs := some n }
  | _ => .error (.unknownOption option)

/-- The option takes a value. -/
def takesValue (option : String) : Bool :=
  ["--profile", "--port", "--database-url", "--orchestrator-url", "--computing-power",
   "--poll-interval-ms"].contains option

/-- Reads options, which may come in any order. -/
def Options.read (o : Options) : List String → Except UsageError Options
  | [] => .ok o
  | "--help" :: rest => Options.read { o with showHelp := true } rest
  | "--version" :: rest => Options.read { o with showVersion := true } rest
  | "--settings" :: rest => Options.read { o with showSettings := true } rest
  | [option] =>
    if takesValue option then .error (.missingValue option) else .error (.unknownOption option)
  | option :: value :: rest =>
    match withValue o option value with
    | .ok o => o.read rest
    | .error e => .error e

/-- The settings with what the options override. -/
def Options.apply (o : Options) (s : Settings) : Settings :=
  { s with
    server := { s.server with port := o.port.getD s.server.port }
    storage := { s.storage with url := o.databaseUrl.getD s.storage.url }
    worker :=
      { orchestratorUrl := o.orchestratorUrl.getD s.worker.orchestratorUrl
        computingPower := o.computingPower.getD s.worker.computingPower
        pollIntervalMs := o.pollIntervalMs.getD s.worker.pollIntervalMs } }

/-! ## 3. One line of input -/

/-- What became of an expression, as one line. -/
def outcomeLine (e : Expression) : String :=
  match e.error with
  | some error => "error: " ++ error
  | none => String.ofList (Json.numberChars e.result)

/-- Works out one formula: the line to print, and the dispatcher after it. -/
def evaluateLine (s : Settings) (d : Dispatcher MemoryLedger) (line : String) :
    String × Dispatcher MemoryLedger :=
  match d.submit line 0 with
  | (.error e, d) => ("error: " ++ e.message, d)
  | (.ok id, d) =>
    let d := d.runAgents s.worker.computingPower 0
    match Ledger.get? id d.ledger with
    | some e => (outcomeLine e, d)
    | none => ("error: " ++ (LedgerError.notFound id).message, d)

end Reckoner.Command
