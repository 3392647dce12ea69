import Reckoner.Account
import Reckoner.Board
import Reckoner.Command
import Reckoner.Digest.Hmac
import Reckoner.Digest.Sha256
import Reckoner.Dispatcher
import Reckoner.Expression
import Reckoner.Formula.Operator
import Reckoner.Formula.Plan
import Reckoner.Formula.Postfix
import Reckoner.IdMap
import Reckoner.Json.Basic
import Reckoner.Json.Reader
import Reckoner.Json.Record
import Reckoner.Json.Writer
import Reckoner.Ledger.Basic
import Reckoner.Ledger.Database
import Reckoner.Ledger.Faulty
import Reckoner.Ledger.Memory
import Reckoner.Main
import Reckoner.Metrics
import Reckoner.Number.Arithmetic
import Reckoner.Number.Basic
import Reckoner.Number.Decimal
import Reckoner.Number.Fixed
import Reckoner.Number.Rounding
import Reckoner.Number.Shortest
import Reckoner.Power
import Reckoner.Proofs.Board.Plain
import Reckoner.Proofs.Dispatcher.Run
import Reckoner.Proofs.Formula.Alternation
import Reckoner.Proofs.Formula.Grammar
import Reckoner.Service.Basic
import Reckoner.Service.Loopback
import Reckoner.Service.MediaType
import Reckoner.Service.Message
import Reckoner.Service.Route
import Reckoner.Settings
import Reckoner.Status
import Reckoner.Task.Basic
import Reckoner.Task.Codec
import Reckoner.Task.Operand
import Reckoner.Text.Base64Url
import Reckoner.Text.Blank
import Reckoner.Text.Hex
import Reckoner.Text.Integer
import Reckoner.Text.LogLine
import Reckoner.Text.UpperCase
import Reckoner.Text.UpperCase.Table
import Reckoner.Text.Utf8
import Reckoner.Timings
import Reckoner.Token
import Reckoner.Token.Key
import Reckoner.Worker.Agent
import Reckoner.Worker.Evaluate
import Reckoner.Worker.Remote
import Reckoner.Worker.Source
import Reckoner.Proofs.Dispatcher.CaughtUp
import Reckoner.Proofs.Dispatcher.Restart
import Reckoner.Proofs.Dispatcher.History
import Reckoner.Proofs.Dispatcher.Submission
import Reckoner.Proofs.Board.Replay
import Reckoner.Proofs.Dispatcher.Recovery
import Reckoner.Proofs.Ledger.Interchange
import Reckoner.Proofs.Dispatcher.Balance
import Reckoner.Proofs.Dispatcher.InFlight
import Reckoner.Proofs.Service.Loopback
import Reckoner.Proofs.Formula.Tokens
import Reckoner.Proofs.Board.Apart
import Reckoner.Proofs.Dispatcher.Apart
import Reckoner.Proofs.Service.Rejection
import Reckoner.Proofs.Ledger.Submissions
import Reckoner.Proofs.Service.Ownership
import Reckoner.Proofs.Service.Path
import Reckoner.Proofs.Service.Bearer
import Reckoner.Proofs.Token
import Reckoner.Proofs.Formula.Conservation
import Reckoner.Proofs.Dispatcher.Charted
import Reckoner.Proofs.Formula.InOrder
import Reckoner.Proofs.Board.Idle
import Reckoner.Proofs.Dispatcher.Drain
import Reckoner.Proofs.Board.Verdict
import Reckoner.Proofs.Dispatcher.Commute
import Reckoner.Proofs.Board.Log
import Reckoner.Proofs.Dispatcher.Completion
import Reckoner.Proofs.Dispatcher.Refusal
import Reckoner.Proofs.Dispatcher.Resumption
import Reckoner.Proofs.Worker.Evaluable
import Reckoner.Proofs.Task.RoundTrip
import Reckoner.Proofs.Settings
import Reckoner.Proofs.Text.Base64Url
import Reckoner.Proofs.Token.Lifetime
import Reckoner.Proofs.Service.Registration
import Reckoner.Proofs.Worker.Resolved
import Reckoner.Proofs.Task.Operand
