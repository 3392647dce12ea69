/-
Reckoner.Service.Route — which paths there are.

A path is matched as it stands, without decoding. What comes before it in an
absolute address, its query and its fragment do not matter. A target may have no
path at all. Only the id of an expression is decoded, once the path has matched.

  1. Routes
  2. Paths
  3. Matching
  4. Percent signs
-/
import Reckoner.Text.Utf8

namespace Reckoner.Service

/-! ## 1. Routes -/

/-- A known path. -/
inductive Route where
  | health
  | register
  | login
  | calculate
  | expressions
  | expression (rawId : String)
  | task
deriving DecidableEq

/-- The methods of a route. What can be fetched can also be asked for without
its body. -/
def Route.methods : Route → List String
  | .health => ["GET", "HEAD"]
  | .register => ["POST"]
  | .login => ["POST"]
  | .calculate => ["POST"]
  | .expressions => ["GET", "HEAD"]
  | .expression _ => ["GET", "HEAD"]
  | .task => ["GET", "HEAD", "POST"]

/-! ## 2. Paths -/

/-- The character ends the path, or what comes before it. -/
def endsPath (c : Char) : Bool := c == '?' || c == '#'

/-- The character may stand in the name of a scheme. -/
def isSchemeChar (c : Char) : Bool := c.isAlphanum || c == '+' || c == '-' || c == '.'

/-- What follows the scheme and the host of an absolute address; none if the text
has no scheme. -/
def afterHost? (cs : List Char) : Option (List Char) :=
  match cs.dropWhile isSchemeChar with
  | ':' :: '/' :: '/' :: rest => some (rest.dropWhile fun c => c != '/' && !endsPath c)
  | _ => none

/-- The path of a target. An absolute address without a path has the path `/`; a
target that is only a host, or an asterisk, has none. -/
def path? (target : String) : Option (List Char) :=
  let upToEnd := List.takeWhile fun c => !endsPath c
  match target.toList with
  | '/' :: cs => some (upToEnd ('/' :: cs))
  | cs => (afterHost? cs).map fun rest =>
    match upToEnd rest with
    | [] => ['/']
    | path => path

/-! ## 3. Matching -/

/-- What stands between the slashes of a path; a path begins with a slash. -/
def segments (path : List Char) : List String :=
  (path.splitOn '/').map String.ofList

/-- The route of a path. -/
def Route.ofPath? (path : List Char) : Option Route :=
  match segments path with
  | ["", "health"] => some .health
  | ["", "api", "v1", "register"] => some .register
  | ["", "api", "v1", "login"] => some .login
  | ["", "api", "v1", "calculate"] => some .calculate
  | ["", "api", "v1", "expressions"] => some .expressions
  | ["", "api", "v1", "expressions", id] => if id = "" then none else some (.expression id)
  | ["", "internal", "task"] => some .task
  | _ => none

/-! ## 4. Percent signs -/

/-- The value of a hexadecimal digit. -/
def percentDigit? (c : Char) : Option Nat :=
  let n := c.toNat
  if 0x30 ≤ n ∧ n ≤ 0x39 then some (n - 0x30)
  else if 0x61 ≤ n ∧ n ≤ 0x66 then some (n - 0x61 + 10)
  else if 0x41 ≤ n ∧ n ≤ 0x46 then some (n - 0x41 + 10)
  else none

/-- The bytes of a text in which a percent sign and two digits stand for a
byte; any other percent sign stands for itself. -/
def percentBytes : List Char → List UInt8
  | '%' :: a :: b :: rest =>
    match percentDigit? a, percentDigit? b with
    | some high, some low => UInt8.ofNat (16 * high + low) :: percentBytes rest
    | _, _ => 0x25 :: percentBytes (a :: b :: rest)
  | c :: rest => Text.utf8 (String.ofList [c]) ++ percentBytes rest
  | [] => []

/-- The text a percent-encoded text stands for. -/
def percentDecode? (s : String) : Option String := Text.ofUtf8? (percentBytes s.toList)

end Reckoner.Service
