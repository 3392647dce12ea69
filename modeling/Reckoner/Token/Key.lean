/-
Reckoner.Token.Key — public keys in the header of a token.

A header may carry the key that is to be used with the token. The key is never
used here, but a header whose key has no known form is refused. A key is an
object with the members of one of four kinds of keys, members that any key may
have, and others that do not matter.

  1. Members
  2. What a member may hold
  3. Kinds of keys
-/
import Reckoner.Json.Basic

namespace Reckoner.Token.Key

/-! ## 1. Members -/

/-- The members of an object in their order; a name that has no value is left out. -/
def membersOf : Json.Members → List (String × Json)
  | .cons (some name) j ms => (name, j) :: membersOf ms
  | .cons none _ ms => membersOf ms
  | _ => []

/-- The values that are given under a name. -/
def valuesOf (name : String) (members : List (String × Json)) : List Json :=
  (members.filter fun m => m.1 == name).map (·.2)

/-- A member that a key may or must have: its name, and what it may hold. -/
structure Field where
  name : String
  holds : Json → Bool

/-- The member is there once and holds what it may. -/
def Field.isGiven (members : List (String × Json)) (f : Field) : Bool :=
  match valuesOf f.name members with
  | [j] => f.holds j
  | _ => false

/-- The member is missing, or is there once and holds nothing or what it may. -/
def Field.mayBeGiven (members : List (String × Json)) (f : Field) : Bool :=
  match valuesOf f.name members with
  | [] => true
  | [.null] => true
  | [j] => f.holds j
  | _ => false

/-! ## 2. What a member may hold -/

/-- A string. -/
def isText : Json → Bool
  | .text _ => true
  | _ => false

/-- Strings and nothing else. -/
def areTexts : Json.Items → Bool
  | .closed => true
  | .broken => false
  | .cons j js => isText j && areTexts js

/-- An array of strings. -/
def isTextArray : Json → Bool
  | .array items => areTexts items
  | _ => false

/-- A word of a list, as a string or as the only name of an object whose value
is of the kind `blank`. -/
def isWord (blank : Json → Bool) (words : List String) : Json → Bool
  | .text s => words.contains s
  | .object (.cons (some s) j .closed) => words.contains s && blank j
  | _ => false

/-- Nothing. -/
def isNull : Json → Bool
  | .null => true
  | _ => false

/-- Nothing, or an object without members. -/
def isNullOrEmpty : Json → Bool
  | .null => true
  | .object .closed => true
  | _ => false

/-! ## 3. Kinds of keys -/

/-- The methods that a key may be meant for. -/
def algorithms : List String :=
  ["HS256", "HS384", "HS512", "ES256", "ES384", "RS256", "RS384", "RS512",
   "PS256", "PS384", "PS512", "EdDSA", "RSA1_5", "RSA-OAEP", "RSA-OAEP-256"]

/-- The members that any key may have. -/
def commonFields : List Field :=
  [⟨"use", isText⟩, ⟨"key_ops", isTextArray⟩, ⟨"alg", isWord isNullOrEmpty algorithms⟩,
   ⟨"kid", isText⟩, ⟨"x5u", isText⟩, ⟨"x5c", isTextArray⟩, ⟨"x5t", isText⟩,
   ⟨"x5t#S256", isText⟩]

/-- The member that names the kind of a key. -/
def kind (word : String) : Field := ⟨"kty", isWord isNull [word]⟩

/-- The member that names a curve. -/
def curve : Field := ⟨"crv", isWord isNull ["P-256", "P-384", "P-521", "Ed25519"]⟩

/-- The members of each kind of key: points of a curve, moduli, secrets and
pairs on a curve. -/
def kinds : List (List Field) :=
  [[kind "EC", curve, ⟨"x", isText⟩, ⟨"y", isText⟩],
   [kind "RSA", ⟨"n", isText⟩, ⟨"e", isText⟩],
   [kind "oct", ⟨"k", isText⟩],
   [kind "OKP", curve, ⟨"x", isText⟩]]

/-- The tree is a key every part of which has a value, and in which no more than
`room` arrays and objects nest. -/
def isKey (room : Nat) (j : Json) : Bool :=
  match j with
  | .object members =>
    let ms := membersOf members
    j.isSound && decide (j.depth ≤ room) && commonFields.all (Field.mayBeGiven ms) &&
      kinds.any fun fields => fields.all (Field.isGiven ms)
  | _ => false

end Reckoner.Token.Key
