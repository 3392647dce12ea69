/-
Reckoner.Formula.Postfix — from infix text to postfix tokens.

The text is cut into lexemes, which never fails: a character that belongs to
no formula is a lexeme of its own. The lexemes are then ordered with a stack of
operators and open parentheses, and the first lexeme that cannot be placed is
the error. Numbers keep their source text. A minus sign at the very start, or
directly behind an open parenthesis, belongs to the number after it.

  1. Lexemes
  2. The yard
  3. Formulas
-/
import Reckoner.Formula.Operator
import Reckoner.Text.Blank

namespace Reckoner.Formula

/-! ## 1. Lexemes -/

/-- A part of a formula's text. -/
inductive Lexeme where
  | number (text : String)
  | operator (op : Operator)
  | opening
  | closing
  /-- A character that belongs to no formula. -/
  | stray (c : Char)
deriving DecidableEq

/-- The characters of a number: ASCII digits and points. -/
def isNumberChar (c : Char) : Bool := c.isDigit || c == '.'

/-- The lexemes with a number in front, if one has been begun; its characters
are given last first. -/
def withNumber (number : List Char) (rest : List Lexeme) : List Lexeme :=
  if number.isEmpty then rest else .number (String.ofList number.reverse) :: rest

/-- The lexemes of a text. `number` holds the characters of a number that has
been begun, last first, and `signAllowed` says that a minus sign would begin
one here. -/
def lexemesFrom (number : List Char) (signAllowed : Bool) : List Char → List Lexeme
  | [] => withNumber number []
  | c :: cs =>
    if isNumberChar c then lexemesFrom (c :: number) false cs
    else withNumber number <|
      if Text.isBlank c then lexemesFrom [] false cs
      else if c = '-' ∧ signAllowed then lexemesFrom ['-'] false cs
      else
        match Operator.ofChar? c with
        | some op => .operator op :: lexemesFrom [] false cs
        | none =>
          if c = '(' then .opening :: lexemesFrom [] true cs
          else if c = ')' then .closing :: lexemesFrom [] false cs
          else .stray c :: lexemesFrom [] false cs

/-- The lexemes of a text. -/
def lexemes (s : String) : List Lexeme := lexemesFrom [] true s.toList

/-! ## 2. The yard -/

/-- Why a text has no postfix form. -/
inductive ParseError where
  | mismatchedParentheses
  | invalidCharacter (c : Char)
deriving DecidableEq

/-- The error in words. -/
def ParseError.message : ParseError → String
  | .mismatchedParentheses => "mismatched parentheses"
  | .invalidCharacter c => "invalid character: " ++ String.ofList [c]

/-- What waits for its right operand or for its closing parenthesis. -/
inductive Waiting where
  | operator (op : Operator)
  | parenthesis
deriving DecidableEq

/-- The tokens put out so far and what waits, the innermost first. -/
structure Yard where
  output : List String
  waiting : List Waiting

namespace Yard

/-- The yard before the first lexeme. -/
def empty : Yard := ⟨[], []⟩

/-- The waiting operators that bind at least as strongly as `op`, innermost
first, and what waits behind them. -/
def release (op : Operator) : List Waiting → List Operator × List Waiting
  | .operator top :: ws =>
    if top.precedence < op.precedence then ([], .operator top :: ws)
    else
      let (ops, ws) := release op ws
      (top :: ops, ws)
  | ws => ([], ws)

/-- The operators inside the innermost open parenthesis, and what waits behind
it; `none` if no parenthesis is open. -/
def close? : List Waiting → Option (List Operator × List Waiting)
  | [] => none
  | .parenthesis :: ws => some ([], ws)
  | .operator op :: ws => (close? ws).map fun (ops, ws) => (op :: ops, ws)

/-- All waiting operators; `none` if a parenthesis is open. -/
def closeAll? : List Waiting → Option (List Operator)
  | [] => some []
  | .parenthesis :: _ => none
  | .operator op :: ws => (closeAll? ws).map (op :: ·)

/-- The yard with some operators put out. -/
def emit (y : Yard) (ops : List Operator) (waiting : List Waiting) : Yard :=
  ⟨y.output ++ ops.map Operator.text, waiting⟩

/-- The yard after one more lexeme. -/
def step (y : Yard) : Lexeme → Except ParseError Yard
  | .number s => .ok ⟨y.output ++ [s], y.waiting⟩
  | .operator op =>
    let (ops, ws) := release op y.waiting
    .ok (y.emit ops (.operator op :: ws))
  | .opening => .ok ⟨y.output, .parenthesis :: y.waiting⟩
  | .closing =>
    match close? y.waiting with
    | some (ops, ws) => .ok (y.emit ops ws)
    | none => .error .mismatchedParentheses
  | .stray c => .error (.invalidCharacter c)

/-- The yard after some lexemes, or the first error. -/
def run (y : Yard) : List Lexeme → Except ParseError Yard
  | [] => .ok y
  | l :: ls =>
    match y.step l with
    | .ok y => y.run ls
    | .error e => .error e

/-- The tokens of a yard at the end of the text. -/
def finish (y : Yard) : Except ParseError (List String) :=
  match closeAll? y.waiting with
  | some ops => .ok (y.output ++ ops.map Operator.text)
  | none => .error .mismatchedParentheses

end Yard

/-! ## 3. Formulas -/

/-- The postfix tokens of an infix formula. -/
def postfixOf (s : String) : Except ParseError (List String) :=
  match Yard.empty.run (lexemes s) with
  | .ok y => y.finish
  | .error e => .error e

end Reckoner.Formula
