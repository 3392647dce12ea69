/-
Reckoner.Token — bearer tokens.

A token is a header and claims, both JSON in base64, and a tag that keys them
with a secret: three parts with dots between them. It names a user and says
from when to when it holds. Times are whole seconds.

  1. Claims
  2. Signing
  3. What is wrong with a token
  4. Reading the header and the claims
  5. Verifying
-/
import Reckoner.Digest.Hmac
import Reckoner.Json.Record
import Reckoner.Json.Writer
import Reckoner.Text.Base64Url
import Reckoner.Text.Utf8
import Reckoner.Token.Key

namespace Reckoner.Token

open Json (Slot asRecord asSigned64 asText asOptional)

/-! ## 1. Claims -/

/-- What a token says: whom it is for, when it was issued, and the first and
the last second at which it holds. -/
structure Claims where
  subject : Int
  issuedAt : Int
  notBefore : Int
  expires : Int
deriving DecidableEq

/-- The number of seconds in a signed 64-bit word that a count of seconds stands
for; large counts stand for negative ones. -/
def signedSeconds (seconds : Int) : Int := Int.bmod seconds (2 ^ 64)

/-- The claims of a token issued at a time for a number of seconds. -/
def Claims.issue (subject now : Int) (lifetime : Nat) : Claims where
  subject
  issuedAt := now
  notBefore := now
  expires := signedSeconds (now + signedSeconds lifetime)

/-! ## 2. Signing -/

/-- The name of the only method of signing that is accepted. -/
def algorithm : String := "HS256"

/-- The header of every token that is issued. -/
def header : Json := .ofMembers [("typ", .text "JWT"), ("alg", .text algorithm)]

/-- Claims as JSON. -/
def Claims.toJson (c : Claims) : Json :=
  .ofMembers
    [("sub", .integer c.subject), ("iat", .integer c.issuedAt),
     ("nbf", .integer c.notBefore), ("exp", .integer c.expires)]

/-- JSON as a part of a token. -/
def part (j : Json) : String := Text.Base64Url.encode (Text.utf8 j.render)

/-- The tag of a message under a secret. -/
def tag (secret message : String) : String :=
  Text.Base64Url.encode (Digest.hmac (Text.utf8 secret) (Text.utf8 message))

/-- The part of a token that is signed. -/
def signedPart (c : Claims) : String := part header ++ "." ++ part c.toJson

/-- A signed token. -/
def sign (secret : String) (c : Claims) : String :=
  signedPart c ++ "." ++ tag secret (signedPart c)

/-! ## 3. What is wrong with a token -/

/-- Why a token is refused. -/
inductive Refusal where
  /-- It has fewer than three parts. -/
  | invalidToken
  | base64
  | json
  | invalidAlgorithm
  | invalidSignature
  /-- The time at which it ends lies before all times. -/
  | missingExpiry
  | expired
  | immature
  /-- It is meant for somebody else. -/
  | invalidAudience
deriving DecidableEq

/-- The name of a refusal. -/
def Refusal.name : Refusal → String
  | .invalidToken => "InvalidToken"
  | .base64 => "Base64 error"
  | .json => "JSON error"
  | .invalidAlgorithm => "InvalidAlgorithm"
  | .invalidSignature => "InvalidSignature"
  | .missingExpiry => "Missing required claim: exp"
  | .expired => "ExpiredSignature"
  | .immature => "ImmatureSignature"
  | .invalidAudience => "InvalidAudience"

/-- The refusal in words. -/
def Refusal.message (r : Refusal) : String := "invalid token: " ++ r.name

/-! ## 4. Reading the header and the claims -/

/-- The methods of signing that a header may name. -/
def knownAlgorithms : List String :=
  ["HS256", "HS384", "HS512", "ES256", "ES384", "RS256", "RS384", "RS512",
   "PS256", "PS384", "PS512", "EdDSA"]

/-- The method of signing that a word names. -/
def algorithm? (s : String) : Option String :=
  if knownAlgorithms.contains s then some s else none

/-- The list of strings in a JSON array. -/
def asTexts : Json → Except Json.Fault (List String)
  | .array items => go items
  | j => .error j.misfit
where
  /-- The strings of some items. -/
  go : Json.Items → Except Json.Fault (List String)
    | .closed => .ok []
    | .broken => .error .illFormed
    | .cons j js => (asText j).bind fun s => (go js).map (s :: ·)

/-- A header some of whose fields have been read; of most it matters only that
they are there and have their type. -/
structure HeaderDraft where
  kind : Option Unit := none
  algorithm : Option String := none
  contentKind : Option Unit := none
  keySetAddress : Option Unit := none
  key : Option Unit := none
  keyName : Option Unit := none
  certificateAddress : Option Unit := none
  certificates : Option Unit := none
  thumbprint : Option Unit := none
  longThumbprint : Option Unit := none

/-- An optional string whose value does not matter. -/
def asAnyText (j : Json) : Except Json.Fault Unit := (asOptional asText j).map fun _ => ()

/-- How deep arrays and objects may nest where they are read and not skipped. -/
def greatestDepth : Nat := 127

/-- An optional key. -/
def asAnyKey : Json → Except Json.Fault Unit
  | .null => .ok ()
  | j => if Key.isKey (greatestDepth - 1) j then .ok () else .error .wrongShape

/-- The fields of a header in their order. -/
def headerSlots : List (Slot HeaderDraft) :=
  [.once ["typ"] HeaderDraft.kind (fun v d => { d with kind := some v }) asAnyText,
   .once ["alg"] HeaderDraft.algorithm (fun v d => { d with algorithm := some v })
     (Json.asWord algorithm?),
   .once ["cty"] HeaderDraft.contentKind (fun v d => { d with contentKind := some v }) asAnyText,
   .once ["jku"] HeaderDraft.keySetAddress
     (fun v d => { d with keySetAddress := some v }) asAnyText,
   .once ["jwk"] HeaderDraft.key (fun v d => { d with key := some v }) asAnyKey,
   .once ["kid"] HeaderDraft.keyName (fun v d => { d with keyName := some v }) asAnyText,
   .once ["x5u"] HeaderDraft.certificateAddress
     (fun v d => { d with certificateAddress := some v }) asAnyText,
   .once ["x5c"] HeaderDraft.certificates (fun v d => { d with certificates := some v })
     (fun j => (asOptional asTexts j).map fun _ => ()),
   .once ["x5t"] HeaderDraft.thumbprint (fun v d => { d with thumbprint := some v }) asAnyText,
   .once ["x5t#S256"] HeaderDraft.longThumbprint
     (fun v d => { d with longThumbprint := some v }) asAnyText]

/-- The method of signing that a header names. A header that is an array has all
of its fields. -/
def algorithmOf (j : Json) : Except Json.Fault String :=
  match j with
  | .array items =>
    if items.length < headerSlots.length then .error .wrongShape
    else asRecord headerSlots {} HeaderDraft.algorithm j
  | _ => asRecord headerSlots {} HeaderDraft.algorithm j

/-- Claims some of which have been read. -/
structure ClaimsDraft where
  subject : Option Int := none
  issuedAt : Option Int := none
  notBefore : Option Int := none
  expires : Option Int := none

/-- The claims in their order. -/
def claimsSlots : List (Slot ClaimsDraft) :=
  [.once ["sub"] ClaimsDraft.subject (fun v d => { d with subject := some v }) asSigned64,
   .once ["iat"] ClaimsDraft.issuedAt (fun v d => { d with issuedAt := some v }) asSigned64,
   .once ["nbf"] ClaimsDraft.notBefore (fun v d => { d with notBefore := some v }) asSigned64,
   .once ["exp"] ClaimsDraft.expires (fun v d => { d with expires := some v }) asSigned64]

/-- The claims of a draft; all four are needed. -/
def ClaimsDraft.finish? (d : ClaimsDraft) : Option Claims := do
  let subject ← d.subject
  let issuedAt ← d.issuedAt
  let notBefore ← d.notBefore
  let expires ← d.expires
  pure ⟨subject, issuedAt, notBefore, expires⟩

/-- Claims out of JSON; they are always an object. -/
def Claims.ofJson : Json → Except Json.Fault Claims
  | .object members => asRecord claimsSlots {} ClaimsDraft.finish? (.object members)
  | j => .error j.misfit

/-- Who a token is meant for and who issued it, as far as it matters. -/
structure AddressDraft where
  audience : Option Bool := none
  issuer : Option Unit := none

/-- The value names somebody. -/
def namesAudience : Json → Bool
  | .text _ => true
  | .array items =>
    match asTexts (.array items) with
    | .ok _ => true
    | .error _ => false
  | _ => false

/-- What a value of any kind amounts to; it has to be read to its end. -/
def asAnything {α : Type} (f : Json → α) (j : Json) : Except Json.Fault α :=
  if j.readsThrough (greatestDepth - 1) then .ok (f j) else .error .illFormed

/-- The claims about parties. -/
def addressSlots : List (Slot AddressDraft) :=
  [.once ["aud"] AddressDraft.audience (fun v d => { d with audience := some v })
     (asAnything namesAudience),
   .once ["iss"] AddressDraft.issuer (fun v d => { d with issuer := some v })
     (asAnything fun _ => ())]

/-- The token is meant for somebody in particular. -/
def hasAudience : Json → Except Json.Fault Bool :=
  asRecord addressSlots {} fun d => some (d.audience.getD false)

/-! ## 5. Verifying -/

/-- The text before the last dot and the text after it. -/
def splitLastDot? (cs : List Char) : Option (List Char × List Char) :=
  let last := (cs.reverse.takeWhile (· ≠ '.')).reverse
  match cs.reverse.dropWhile (· ≠ '.') with
  | _ :: before => some (before.reverse, last)
  | [] => none

/-- Decodes a part of a token. -/
def readPart {α : Type} (decoder : Json → Except Json.Fault α) (cs : List Char) :
    Except Refusal α :=
  match Text.Base64Url.decodeChars? cs with
  | none => .error .base64
  | some bytes => (Json.decodeBytes decoder bytes).mapError fun _ => .json

/-- The claims of a token whose times are not looked at yet, and whether it is
meant for somebody in particular. -/
def openToken (secret token : String) : Except Refusal (Claims × Bool) :=
  match splitLastDot? token.toList with
  | none => .error .invalidToken
  | some (message, signature) =>
    match splitLastDot? message with
    | none => .error .invalidToken
    | some (headerPart, claimsPart) => do
      let named ← readPart algorithmOf headerPart
      if named ≠ algorithm then .error .invalidAlgorithm
      else if String.ofList signature ≠ tag secret (String.ofList message) then
        .error .invalidSignature
      else
        let claims ← readPart Claims.ofJson claimsPart
        let addressed ← readPart hasAudience claimsPart
        pure (claims, addressed)

/-- The times of the claims hold at `now`: their end is no time before zero and
does not lie behind, and their beginning does not lie ahead. -/
def Claims.holdAt (c : Claims) (now : Int) : Except Refusal Unit :=
  if c.expires < 0 then .error .missingExpiry
  else if c.expires < now then .error .expired
  else if now < c.notBefore then .error .immature
  else .ok ()

/-- The user that a token names, if it holds at `now` under the secret. -/
def verify (secret : String) (now : Int) (token : String) : Except Refusal Int := do
  let (claims, addressed) ← openToken secret token
  claims.holdAt now
  if addressed then .error .invalidAudience else pure claims.subject

/-- A token for a user, issued at `now`. -/
def issue (secret : String) (lifetime : Nat) (now user : Int) : String :=
  sign secret (.issue user now lifetime)

end Reckoner.Token
