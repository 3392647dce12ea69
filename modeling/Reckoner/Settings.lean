/-
Reckoner.Settings — the settings of a deployment, from environment variables.

A profile is a name. Every setting is looked up under the upper-cased profile
and its key, joined by an underscore, and then under the key alone; a variable
that is empty counts as missing, and a number that does not read, or does not
fit, gives way to the default.

  1. The environment
  2. Look-up
  3. Settings
  4. Settings from an environment
  5. Texts
  6. Settings as JSON
-/
import Reckoner.Json.Writer
import Reckoner.Text.LogLine
import Reckoner.Text.UpperCase
import Reckoner.Timings

namespace Reckoner

/-! ## 1. The environment -/

/-- Environment variables: the value of each name that has one. -/
abbrev Environment := String → Option String

namespace Environment

/-- A variable as it is kept: its name and its value with an equals sign between. -/
def entry (name value : String) : List Char := name.toList ++ '=' :: value.toList

/-- The variables of a list of names and values. The value of a name is what
follows it and an equals sign in the first entry that begins so, also where the
name itself has an equals sign. -/
def ofList (vars : List (String × String)) : Environment := fun name =>
  vars.findSome? fun v => ((entry name "").isPrefixOf? (entry v.1 v.2)).map String.ofList

/-! ## 2. Look-up -/

/-- The value of a variable that is not empty. -/
def nonempty? (env : Environment) (name : String) : Option String :=
  (env name).filter (· ≠ "")

/-- The name under which a profile overrides a key. -/
def profiledName (profile key : String) : String := profile ++ "_" ++ key

/-- The value of a key under a profile. -/
def setting? (env : Environment) (profile key : String) : Option String :=
  if profile = "" then env.nonempty? key
  else (env.nonempty? (profiledName profile key)).or (env.nonempty? key)

/-- The text of a key. -/
def text (env : Environment) (profile key default : String) : String :=
  (env.setting? profile key).getD default

/-- The number of a key, which must be below `limit`. -/
def number (env : Environment) (limit : Nat) (profile key : String) (default : Nat) : Nat :=
  ((env.setting? profile key).bind (Text.unsignedBelow? limit)).getD default

end Environment

/-! ## 3. Settings -/

/-- Where the service listens, and which origin may use it from a browser. -/
structure Settings.Server where
  host : String
  port : Nat
  corsOrigin : String
deriving DecidableEq

/-- Where the database is. -/
structure Settings.Storage where
  url : String
  maxConnections : Nat
deriving DecidableEq

/-- How tokens are signed and how long they hold. -/
structure Settings.Tokens where
  secret : String
  lifetimeSecs : Nat
deriving DecidableEq

/-- Where a worker gets its tasks, and how many loops it runs. -/
structure Settings.Worker where
  orchestratorUrl : String
  computingPower : Nat
  pollIntervalMs : Nat
deriving DecidableEq

/-- All settings, with the profile they were read under. -/
structure Settings where
  profile : String
  server : Settings.Server
  storage : Settings.Storage
  timings : Timings
  tokens : Settings.Tokens
  worker : Settings.Worker
deriving DecidableEq

namespace Settings

/-! ## 4. Settings from an environment -/

/-- The settings of a profile, given in any case. -/
def forProfile (env : Environment) (name : String) : Settings :=
  let p := Text.upperCase name
  { profile := p
    server :=
      { host := env.text p "HOST" "0.0.0.0"
        port := env.number (2 ^ 16) p "PORT" 8080
        corsOrigin := env.text p "CORS_ORIGIN" "*" }
    storage :=
      { url := env.text p "DATABASE_URL" "sqlite://calculator.db?mode=rwc"
        maxConnections := env.number (2 ^ 32) p "DATABASE_MAX_CONNECTIONS" 5 }
    timings :=
      { additionMs := env.number (2 ^ 64) p "TIME_ADDITION_MS" 1000
        subtractionMs := env.number (2 ^ 64) p "TIME_SUBTRACTION_MS" 1000
        multiplicationMs := env.number (2 ^ 64) p "TIME_MULTIPLICATIONS_MS" 1000
        divisionMs := env.number (2 ^ 64) p "TIME_DIVISIONS_MS" 1000 }
    tokens :=
      { secret := env.text p "JWT_SECRET" "very_secret"
        lifetimeSecs := env.number (2 ^ 64) p "TOKEN_TTL_SECS" 120 }
    worker :=
      { orchestratorUrl := env.text p "ORCHESTRATOR_URL" "http://localhost:8080"
        computingPower := env.number (2 ^ 32) p "COMPUTING_POWER" 2
        pollIntervalMs := env.number (2 ^ 64) p "POLL_INTERVAL_MS" 2000 } }

/-- The keys of all settings. -/
def keys : List String :=
  ["HOST", "PORT", "CORS_ORIGIN", "DATABASE_URL", "DATABASE_MAX_CONNECTIONS",
   "TIME_ADDITION_MS", "TIME_SUBTRACTION_MS", "TIME_MULTIPLICATIONS_MS", "TIME_DIVISIONS_MS",
   "JWT_SECRET", "TOKEN_TTL_SECS", "ORCHESTRATOR_URL", "COMPUTING_POWER", "POLL_INTERVAL_MS"]

/-- Every variable that the settings of a profile are read from. -/
def variableNames (profile : String) : List String :=
  keys ++ keys.map (Environment.profiledName (Text.upperCase profile))

/-- The variable that names the profile. -/
def profileVariable : String := "ABACUS_PROFILE"

/-- The settings of the profile that the environment names. -/
def ofEnvironment (env : Environment) : Settings :=
  forProfile env (Text.upperCase ((env profileVariable).getD ""))

/-! ## 5. Texts -/

/-- The name of the profile for people. -/
def label (s : Settings) : String := if s.profile = "" then "default" else s.profile

/-- The address the service listens at. -/
def Server.address (s : Server) : String := s.host ++ ":" ++ Text.natural s.port

/-- The database's address up to a question mark: what follows may be secret. -/
def Storage.redactedUrl (s : Storage) : String :=
  String.ofList (s.url.toList.takeWhile (· ≠ '?'))

/-- A summary without secrets, as messages for a log. -/
def messages (s : Settings) : List String :=
  ["Config loaded (profile: " ++ s.label ++ "):",
   "  server:      " ++ s.server.address,
   "  database:    url=" ++ s.storage.redactedUrl,
   "  operations:  +" ++ Text.natural s.timings.additionMs ++
     "ms -" ++ Text.natural s.timings.subtractionMs ++
     "ms *" ++ Text.natural s.timings.multiplicationMs ++
     "ms /" ++ Text.natural s.timings.divisionMs ++ "ms",
   "  auth:        token_ttl=" ++ Text.natural s.tokens.lifetimeSecs ++ "s",
   "  agent:       orchestrator=" ++ s.worker.orchestratorUrl ++
     ", computing_power=" ++ Text.natural s.worker.computingPower]

/-- A summary without secrets, line by line. -/
def summary (s : Settings) : List String := s.messages.flatMap Text.logLines

/-! ## 6. Settings as JSON -/

/-- The times of the operations as JSON. -/
def timingsJson (t : Timings) : Json :=
  .ofMembers
    [("addition_ms", .integer t.additionMs), ("subtraction_ms", .integer t.subtractionMs),
     ("multiplication_ms", .integer t.multiplicationMs), ("division_ms", .integer t.divisionMs)]

/-- All settings as JSON, without the secret. -/
def toJson (s : Settings) : Json :=
  .ofMembers
    [("profile", .text s.profile),
     ("server", .ofMembers
       [("host", .text s.server.host), ("port", .integer s.server.port),
        ("cors_origin", .text s.server.corsOrigin)]),
     ("database", .ofMembers
       [("url", .text s.storage.url),
        ("max_connections", .integer s.storage.maxConnections)]),
     ("operations", timingsJson s.timings),
     ("auth", .ofMembers [("token_ttl_secs", .integer s.tokens.lifetimeSecs)]),
     ("agent", .ofMembers
       [("orchestrator_url", .text s.worker.orchestratorUrl),
        ("computing_power", .integer s.worker.computingPower),
        ("poll_interval_ms", .integer s.worker.pollIntervalMs)])]

end Settings

end Reckoner
