/-
Reckoner.Formula.Plan — the order in which a formula is worked out.

A plan has one node for each operator. An operand of a node is a literal text
or an earlier node, and the root is the last node, or the one literal of a
formula without operators. A plan carries no task ids, so a formula that has
none uses up no ids.

  1. Plans
  2. Building a plan from postfix tokens
  3. Constants
-/
import Reckoner.Formula.Postfix
import Reckoner.Number.Decimal

namespace Reckoner

/-! ## 1. Plans -/

namespace Plan

/-- Where an operand of a node comes from. -/
inductive Source where
  | literal (text : String)
  | node (index : Nat)
deriving DecidableEq

/-- One operation of a plan. -/
structure Node where
  left : Source
  right : Source
  operator : Operator
deriving DecidableEq

end Plan

/-- The operations of a formula in the order in which they can be done. -/
structure Plan where
  nodes : List Plan.Node
  root : Plan.Source
deriving DecidableEq

/-- Why some tokens are no plan. -/
inductive PlanError where
  | insufficientOperands (op : Operator)
  | invalidToken (token : String)
  | unbalancedOperands (count : Nat)
deriving DecidableEq

/-- The error in words. -/
def PlanError.message : PlanError → String
  | .insufficientOperands op => "not enough operands for operator: " ++ op.text
  | .invalidToken token => "invalid token: " ++ token
  | .unbalancedOperands count =>
    "expected a single result, found " ++ Text.natural count ++ " operands"

namespace Plan

/-! ## 2. Building a plan from postfix tokens -/

/-- The token is a literal of a formula: it has an ASCII digit and spells a
finite number. -/
def isLiteral (token : String) : Bool :=
  token.toList.any Char.isDigit && (Number.ofText? token).any Number.isFinite

/-- The nodes made so far and the operands that wait for an operator, the
latest first. -/
structure Builder where
  nodes : List Node
  operands : List Source

namespace Builder

/-- The builder before the first token. -/
def empty : Builder := ⟨[], []⟩

/-- The builder after one more token. An operator takes the two latest
operands, of which the latest is its right one. -/
def step (b : Builder) (token : String) : Except PlanError Builder :=
  match Operator.ofToken? token with
  | some op =>
    match b.operands with
    | right :: left :: rest =>
      .ok ⟨b.nodes ++ [⟨left, right, op⟩], .node b.nodes.length :: rest⟩
    | _ => .error (.insufficientOperands op)
  | none =>
    if isLiteral token then .ok ⟨b.nodes, .literal token :: b.operands⟩
    else .error (.invalidToken token)

/-- The builder after some tokens, or the first error. -/
def run (b : Builder) : List String → Except PlanError Builder
  | [] => .ok b
  | t :: ts =>
    match b.step t with
    | .ok b => b.run ts
    | .error e => .error e

/-- The plan of a builder at the end of the tokens: one operand must be left. -/
def finish (b : Builder) : Except PlanError Plan :=
  match b.operands with
  | [root] => .ok ⟨b.nodes, root⟩
  | operands => .error (.unbalancedOperands operands.length)

end Builder

/-- The plan of some postfix tokens. -/
def ofTokens (tokens : List String) : Except PlanError Plan :=
  match Builder.empty.run tokens with
  | .ok b => b.finish
  | .error e => .error e

/-- The number of operations. -/
def size (p : Plan) : Nat := p.nodes.length

/-! ## 3. Constants -/

/-- The value of a formula without operators. -/
def constant? (p : Plan) : Option Number :=
  match p.root with
  | .literal text => Number.ofText? text
  | .node _ => none

end Plan

/-- Why a text is no formula. -/
inductive FormulaError where
  | parse (e : Formula.ParseError)
  | plan (e : PlanError)
deriving DecidableEq

/-- The error in words. -/
def FormulaError.message : FormulaError → String
  | .parse e => "failed to parse expression: " ++ e.message
  | .plan e => "failed to create tasks: " ++ e.message

/-- The plan of an infix formula. -/
def Plan.ofFormula (s : String) : Except FormulaError Plan :=
  match Formula.postfixOf s with
  | .error e => .error (.parse e)
  | .ok tokens =>
    match Plan.ofTokens tokens with
    | .error e => .error (.plan e)
    | .ok plan => .ok plan

end Reckoner
