/-
Reckoner.Account — registering and recognising users.

A password is never kept: only its digest together with a random salt is. The
salt is chosen by the caller, so that everything here is a function.

  1. Password digests
  2. Refusals
  3. Registering
  4. Recognising
-/
import Reckoner.Digest.Sha256
import Reckoner.Ledger.Database
import Reckoner.Text.Hex

namespace Reckoner

/-! ## 1. Password digests -/

/-- The digest of a password followed by a salt, as hexadecimal text. -/
def passwordHash (password : String) (salt : List UInt8) : String :=
  Text.Hex.encode (Digest.Sha256.digest (Text.utf8 password ++ salt))

/-! ## 2. Refusals -/

/-- Why a user is not registered or not recognised. -/
inductive AccountError where
  | loginTaken
  | unknownLogin
  | wrongPassword
  | corruptSalt (login : String) (fault : Text.Hex.Fault)
deriving DecidableEq

/-- The refusal in words. -/
def AccountError.message : AccountError → String
  | .loginTaken => "user already exists"
  | .unknownLogin => "user not found"
  | .wrongPassword => "invalid password"
  | .corruptSalt login fault =>
    "Storage error: corrupt salt for " ++ login ++ ": " ++ fault.message

namespace Database

/-- The user of a login. Logins are compared character by character. -/
def findUser? (login : String) (db : Database) : Option User :=
  (db.users.select fun u => u.login == login).head?

/-! ## 3. Registering -/

/-- Registers a user under the next id, unless the login is taken. -/
def register (login password : String) (salt : List UInt8) (db : Database) :
    Except AccountError Int × Database :=
  match db.findUser? login with
  | some _ => (.error .loginTaken, db)
  | none =>
    let id := db.users.nextId
    let user := ⟨id, login, passwordHash password salt, Text.Hex.encode salt⟩
    (.ok id, { db with users := db.users.insert id user })

/-- Overwrites the salt that is kept for a login. -/
def setSalt (login salt : String) (db : Database) : Database :=
  { db with users := (db.users.update (fun u => u.login == login)
      (fun u => { u with salt })).2 }

/-! ## 4. Recognising -/

/-- The user of a login, if the password is the one it was registered with. -/
def authenticate (login password : String) (db : Database) : Except AccountError User :=
  match db.findUser? login with
  | none => .error .unknownLogin
  | some user =>
    match Text.Hex.decode user.salt with
    | .error fault => .error (.corruptSalt login fault)
    | .ok salt =>
      if passwordHash password salt = user.passwordHash then .ok user
      else .error .wrongPassword

end Database

end Reckoner
