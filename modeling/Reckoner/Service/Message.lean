/-
Reckoner.Service.Message — requests and responses.

A request is its method, its target as it stands on the request line, its
header fields and its body, which may be any bytes. The body of a response is
empty, JSON or plain text.

  1. Requests
  2. Responses
-/
import Reckoner.Json.Writer
import Reckoner.Text.Utf8

namespace Reckoner.Service

/-! ## 1. Requests -/

/-- Header fields in their order; the case of a name does not matter. -/
abbrev Fields := List (String × String)

/-- The first value of a field. -/
def Fields.first? (fields : Fields) (name : String) : Option String :=
  (fields.find? fun f => f.1.map Char.toLower == name.map Char.toLower).map (·.2)

/-- The text is made of visible ASCII characters, spaces and tabs. -/
def isPlainText (s : String) : Bool :=
  s.toList.all fun c => (32 ≤ c.toNat && c.toNat ≤ 126) || c == '\t'

/-- The text can stand as the value of a header field. -/
def isFieldValue (s : String) : Bool :=
  s.toList.all fun c => (32 ≤ c.toNat && c.toNat ≠ 127) || c == '\t'

/-- The first value of a field, if it is plain text. -/
def Fields.plain? (fields : Fields) (name : String) : Option String :=
  (fields.first? name).filter isPlainText

/-- What a request carries, which need not be a text. -/
structure Content where
  bytes : List UInt8 := []

/-- A text is carried as UTF-8. -/
instance : Coe String Content := ⟨fun s => ⟨Text.utf8 s⟩⟩

/-- A request. -/
structure Request where
  method : String
  target : String
  fields : Fields := []
  body : Content := {}

/-! ## 2. Responses -/

/-- What a response carries. -/
inductive Body where
  | empty
  | json (value : Json)
  | text (value : String)

/-- The text of a body. -/
def Body.render : Body → String
  | .empty => ""
  | .json value => value.render
  | .text value => value

/-- The media type of a body. -/
def Body.mediaType? : Body → Option String
  | .empty => none
  | .json _ => some "application/json"
  | .text _ => some "text/plain; charset=utf-8"

/-- A response. -/
structure Response where
  status : Nat
  fields : Fields := []
  body : Body := .empty

namespace Response

/-- A response without a body. -/
def bare (status : Nat) : Response := { status }

/-- A response with a body, which says of what type it is. -/
def ofBody (status : Nat) (body : Body) : Response where
  status
  fields := (body.mediaType?.map fun t => ("content-type", t)).toList
  body

/-- A response with JSON. -/
def json (status : Nat) (value : Json) : Response := ofBody status (.json value)

/-- A response that says what went wrong. -/
def error (status : Nat) (message : String) : Response :=
  json status (.ofMembers [("error", .text message)])

/-- A response that says what was done. -/
def message (text : String) : Response := json 200 (.ofMembers [("message", .text text)])

/-- The response with the length of its body in bytes. -/
def withLength (r : Response) : Response :=
  let length := ("content-length", Text.natural (Text.byteLength r.body.render))
  { r with fields := r.fields ++ [length] }

/-- The response without its body. -/
def withoutBody (r : Response) : Response := { r with body := .empty }

/-- The response with more header fields. -/
def withFields (r : Response) (fields : Fields) : Response :=
  { r with fields := r.fields ++ fields }

end Response

end Reckoner.Service
