/-
Reckoner.Service.Basic — the service over HTTP.

A request is routed, its caller is recognised where that is needed, its body is
decoded, and the dispatcher or the table of users does the rest. The time and
the salt of a new password come with each request, so that the answer and the
next state are functions of the request and the state.

  1. The service
  2. Who asks, and for what
  3. Users
  4. Expressions
  5. Tasks
  6. Health
  7. Cross-origin fields
  8. Answering
-/
import Reckoner.Account
import Reckoner.Dispatcher
import Reckoner.Service.MediaType
import Reckoner.Service.Message
import Reckoner.Service.Route
import Reckoner.Settings
import Reckoner.Token

namespace Reckoner

/-! ## 1. The service -/

/-- A service: its settings, and a dispatcher over its database. -/
structure Service where
  tokens : Settings.Tokens
  corsOrigin : String
  dispatcher : Dispatcher Database

/-- What a request brings with it besides its text. -/
structure Service.Moment where
  /-- The time in seconds. -/
  now : Int
  /-- Random bytes for a new password. -/
  salt : List UInt8

namespace Service

/-- The version that the service reports. -/
def version : String := "0.1.0"

/-- A service with nothing on its board over a database. -/
def start (tokens : Settings.Tokens) (corsOrigin : String) (timings : Timings)
    (database : Database) : Service :=
  ⟨tokens, corsOrigin, .start timings database⟩

/-- The service after a restart: only its database is left. -/
def restart (s : Service) : Service := { s with dispatcher := s.dispatcher.restart }

/-- The database behind the service. -/
def database (s : Service) : Database := s.dispatcher.ledger

/-- The service with another database. -/
def withDatabase (s : Service) (database : Database) : Service :=
  { s with dispatcher := { s.dispatcher with ledger := database } }

/-! ## 2. Who asks, and for what -/

/-- The token that a request carries, or what is wrong with its header. -/
def bearerToken (req : Request) : Except String String :=
  match req.fields.plain? "authorization" with
  | none => .error "missing authorization header"
  | some value =>
    match "Bearer ".toList.isPrefixOf? value.toList with
    | none => .error "authorization header must be a bearer token"
    | some rest =>
      let token := Text.trimChars rest
      if token.isEmpty then .error "authorization header must be a bearer token"
      else .ok (String.ofList token)

/-- The user whose token a request carries. -/
def caller (s : Service) (m : Moment) (req : Request) : Except Response Int :=
  match bearerToken req with
  | .error message => .error (.error 401 message)
  | .ok token =>
    (Token.verify s.tokens.secret m.now token).mapError fun e => .error 401 e.message

/-- What is said of a body that cannot be taken. -/
def unprocessable (reason : String) : Response :=
  .error 422 ("unprocessable entity: " ++ reason)

/-- The most bytes that a body may have. -/
def bodyLimit : Nat := 2097152

/-- The header fields say that the body is JSON. -/
def Request.announcesJson (req : Request) : Bool :=
  (req.fields.plain? "content-type").any MediaType.announcesJson

/-- The body is no longer than a body may be. -/
def Request.Fits (req : Request) : Prop := req.body.bytes.length ≤ bodyLimit

instance (req : Request) : Decidable req.Fits :=
  inferInstanceAs (Decidable (req.body.bytes.length ≤ bodyLimit))

/-- The body of a request as JSON of some type. A body that is too long is not read. -/
def decodeBody {α : Type} (decoder : Json → Except Json.Fault α) (req : Request) :
    Except Response α :=
  if req.announcesJson then
    if req.Fits then
      (Json.decodeBytes decoder req.body.bytes).mapError fun
        | .illFormed => unprocessable "Failed to parse the request body as JSON"
        | .wrongShape =>
          unprocessable "Failed to deserialize the JSON body into the target type"
    else .error (unprocessable "Failed to buffer the request body: length limit exceeded")
  else .error (unprocessable "Expected request with \x60Content-Type: application/json\x60")

/-- A body that is announced as JSON, fits and decodes is taken. -/
theorem decodeBody_of_decodeBytes {α : Type} {decoder : Json → Except Json.Fault α}
    {req : Request} {a : α} (hjson : req.announcesJson = true) (hfits : req.Fits)
    (hdecode : Json.decodeBytes decoder req.body.bytes = .ok a) : decodeBody decoder req = .ok a := by
  rw [decodeBody, if_pos hjson, if_pos hfits, hdecode]
  rfl

theorem decodeBody_of_not_fits {α : Type} (decoder : Json → Except Json.Fault α) {req : Request}
    (hjson : req.announcesJson = true) (h : ¬ req.Fits) :
    decodeBody decoder req =
      .error (unprocessable "Failed to buffer the request body: length limit exceeded") := by
  rw [decodeBody, if_pos hjson, if_neg h]

/-! ## 3. Users -/

/-- A login and a password. -/
structure Credentials where
  login : String
  password : String

/-- Credentials some of which have been read. -/
structure CredentialsDraft where
  login : Option String := none
  password : Option String := none

/-- Credentials out of JSON. -/
def Credentials.ofJson : Json → Except Json.Fault Credentials :=
  Json.asRecord
    [.once ["login"] CredentialsDraft.login (fun v d => { d with login := some v }) Json.asText,
     .once ["password"] CredentialsDraft.password (fun v d => { d with password := some v })
       Json.asText]
    {} fun d => do
      let login ← d.login
      let password ← d.password
      pure ⟨login, password⟩

/-- The credentials in a request, with blanks around the login dropped. Neither
may be empty. -/
def credentials (req : Request) : Except Response Credentials := do
  let c ← decodeBody Credentials.ofJson req
  let login := Text.trim c.login
  if login = "" ∨ c.password = "" then
    .error (.error 401 "login or password can't be empty")
  else pure { c with login }

/-- Registers a user. -/
def register (s : Service) (m : Moment) (req : Request) : Response × Service :=
  match credentials req with
  | .error response => (response, s)
  | .ok c =>
    match s.database.register c.login c.password m.salt with
    | (.error e, _) => (.error 400 e.message, s)
    | (.ok _, database) => (.message "user registered", s.withDatabase database)

/-- Gives a token to a registered user. -/
def login (s : Service) (m : Moment) (req : Request) : Response :=
  match credentials req with
  | .error response => response
  | .ok c =>
    match s.database.authenticate c.login c.password with
    | .ok user =>
      .json 200 (.ofMembers
        [("token", .text (Token.issue s.tokens.secret s.tokens.lifetimeSecs m.now user.id))])
    | .error e =>
      match e with
      | .corruptSalt _ _ => .error 500 e.message
      | _ => .error 401 e.message

/-! ## 4. Expressions -/

/-- The formula in a request. -/
def formula (req : Request) : Except Response String := do
  let text ← decodeBody
    (Json.asRecord [.once ["expression"] id (fun v _ => some v) Json.asText] none id) req
  if Text.isAllBlank text then .error (.error 422 "expression is empty") else pure text

/-- Takes a formula from a user. -/
def calculate (s : Service) (m : Moment) (req : Request) : Response × Service :=
  match s.caller m req with
  | .error response => (response, s)
  | .ok user =>
    match formula req with
    | .error response => (response, s)
    | .ok text =>
      match s.dispatcher.submit text user with
      | (.ok id, dispatcher) =>
        (.json 202 (.ofMembers [("id", .integer id)]), { s with dispatcher })
      | (.error e, dispatcher) => (.error 500 e.message, { s with dispatcher })

/-- The expressions of a user. -/
def listExpressions (s : Service) (m : Moment) (req : Request) : Response :=
  match s.caller m req with
  | .error response => response
  | .ok user =>
    let expressions := Ledger.ownedBy user s.database
    .json 200 (.ofMembers [("expressions", .ofItems (expressions.map Expression.toJson))])

/-- One of the expressions of a user. -/
def getExpression (s : Service) (m : Moment) (req : Request) (rawId : String) : Response :=
  match s.caller m req with
  | .error response => response
  | .ok user =>
    match percentDecode? rawId with
    | none => .ofBody 400 (.text "Invalid URL: Invalid UTF-8 in \x60id\x60")
    | some text =>
      match Text.signed64? text with
      | none => .error 400 ("invalid expression id: " ++ text)
      | some id =>
        match Ledger.getOwned? id user s.database with
        | some e => .json 200 (.ofMembers [("expression", e.toJson)])
        | none => .error 404 "expression not found"

/-! ## 5. Tasks -/

/-- Hands out a task. -/
def claimTask (s : Service) : Response × Service :=
  match s.dispatcher.claim with
  | (.ok task, dispatcher) => (.json 200 task.toJson, { s with dispatcher })
  | (.error .noTaskAvailable, dispatcher) =>
    (.error 404 DispatchError.noTaskAvailable.message, { s with dispatcher })
  | (.error e, dispatcher) => (.error 500 e.message, { s with dispatcher })

/-- Takes a report. -/
def reportTask (s : Service) (req : Request) : Response × Service :=
  match decodeBody Report.ofJson req with
  | .error response => (response, s)
  | .ok r =>
    match s.dispatcher.report r with
    | (.ok (), dispatcher) =>
      (.message ("result for task " ++ Text.integer r.id ++ " accepted"), { s with dispatcher })
    | (.error e, dispatcher) =>
      let status := match e with
        | .board (.taskNotFound _) => 404
        | .board (.taskNotClaimed _ _) => 409
        | _ => 500
      (.error status e.message, { s with dispatcher })

/-! ## 6. Health -/

/-- Counts as JSON. -/
def metricsJson (m : Metrics) : Json :=
  .ofMembers
    [("expressions_submitted", .integer m.submitted),
     ("expressions_recovered", .integer m.recovered),
     ("expressions_done", .integer m.done),
     ("expressions_failed", .integer m.failed),
     ("tasks_dispatched", .integer m.dispatched),
     ("tasks_completed", .integer m.tasksCompleted),
     ("tasks_failed", .integer m.tasksFailed),
     ("last_dispatch", .bool m.hasDispatched),
     ("last_result", .bool m.hasReport)]

/-- How much there is to do, and what was done. -/
def health (s : Service) : Response :=
  let load := s.dispatcher.board.load
  .json 200 <| .ofMembers
    [("status", .text "ok"), ("version", .text version),
     ("scheduler", .ofMembers
       [("live_tasks", .integer load.tasks),
        ("runnable_tasks", .integer load.runnable),
        ("computing_tasks", .integer load.computing),
        ("live_expressions", .integer load.expressions),
        ("metrics", metricsJson s.dispatcher.metrics)])]

/-! ## 7. Cross-origin fields -/

/-- The origin that a browser may use the service from: the one in the
settings, or any if that cannot be written into a header field. -/
def allowedOrigin (s : Service) : String :=
  if isFieldValue s.corsOrigin then s.corsOrigin else "*"

/-- The fields that every response has. -/
def commonFields (s : Service) : Fields :=
  [("vary", "origin, access-control-request-method, access-control-request-headers"),
   ("access-control-allow-origin", s.allowedOrigin)]

/-- The fields of every response that is no answer to a browser's question. -/
def sharedFields (s : Service) : Fields :=
  s.commonFields ++ [("access-control-expose-headers", "*")]

/-- The answer to a browser that asks what it may send. -/
def preflight (s : Service) : Response where
  status := 200
  fields := s.commonFields ++
    [("access-control-allow-methods", "*"), ("access-control-allow-headers", "*")]

/-! ## 8. Answering -/

/-- The methods of a route as a header field. -/
def allowField (route : Route) : Fields := [("allow", String.intercalate "," route.methods)]

/-- The answer to a method that a route does not have. -/
def notAllowed (route : Route) : Response :=
  (Response.bare 405).withLength.withFields (allowField route)

/-- The answer of a route to a method that it has. -/
def serve (s : Service) (m : Moment) (req : Request) : Route → Response × Service
  | .health => (s.health, s)
  | .register => s.register m req
  | .login => (s.login m req, s)
  | .calculate => s.calculate m req
  | .expressions => (s.listExpressions m req, s)
  | .expression rawId => (s.getExpression m req rawId, s)
  | .task => if req.method = "POST" then s.reportTask req else s.claimTask

/-- The answer to a request whose target is no known path. -/
def notFound (s : Service) (req : Request) : Response :=
  if req.method = "OPTIONS" then s.preflight else (Response.bare 404).withFields s.sharedFields

/-- The answer to a request, and the service after it. It tells the length of its
body, also when the body itself is left out; only where there is a path, and it is
not known, the length is not told. -/
def answer (s : Service) (m : Moment) (req : Request) : Response × Service :=
  match path? req.target with
  | none => ((s.notFound req).withLength, s)
  | some path =>
    match Route.ofPath? path with
    | none => (s.notFound req, s)
    | some route =>
      if req.method = "OPTIONS" then (s.preflight.withLength.withFields (allowField route), s)
      else if route.methods.contains req.method then
        let (response, s) := s.serve m req route
        let response := response.withLength
        let response := if req.method = "HEAD" then response.withoutBody else response
        (response.withFields s.sharedFields, s)
      else ((notAllowed route).withFields s.sharedFields, s)

end Service

end Reckoner
