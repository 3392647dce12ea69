/-
Reckoner.Digest.Hmac — a keyed digest over SHA-256.

The key is brought to one block, digested first when it is longer than that,
and the message is digested twice behind two masks of the key.
-/
import Reckoner.Digest.Sha256

namespace Reckoner.Digest

/-- The key as one block of 64 bytes. -/
def keyBlock (key : List UInt8) : List UInt8 :=
  let short := if 64 < key.length then Sha256.digest key else key
  short ++ List.replicate (64 - short.length) 0

/-- The tag of a message under a key. -/
def hmac (key message : List UInt8) : List UInt8 :=
  let block := keyBlock key
  let inner := Sha256.digest (block.map (· ^^^ 0x36) ++ message)
  Sha256.digest (block.map (· ^^^ 0x5c) ++ inner)

theorem hmac_length (key message : List UInt8) : (hmac key message).length = 32 := rfl

end Reckoner.Digest
