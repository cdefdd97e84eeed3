import ScriptBundle.Crypto.Gcm
import ScriptBundle.Crypto.Sha256

/-!
# Ciphers over the compressed block

A cipher is a pair of transforms on byte strings.  The one that artifacts use
puts a nonce in front of an authenticated ciphertext, under the digest of the
configured key; the transparent one leaves the block as it is.
-/

namespace ScriptBundle

/-- Why a cipher refuses a block. -/
inductive CipherError where
  | shorterThanNonce (length : Nat)
  | notAuthentic
  deriving DecidableEq, Repr

structure Cipher where
  encrypt : Bytes → Except CipherError Bytes
  decrypt : Bytes → Except CipherError Bytes

namespace Cipher

/-- Size of the nonce in front of a ciphertext. -/
def nonceLength : Nat := 12

/-- The key that is used when none is configured. -/
def defaultKey : Bytes := "launchpack/bytecode".toUTF8.toList

/-- Leaves blocks as they are. -/
def transparent : Cipher where
  encrypt := .ok
  decrypt := .ok

/-- Authenticated encryption under `key`, with `nonce` for the blocks that are
encrypted.  A short nonce is filled up with zeros. -/
def authenticated (key nonce : Bytes) : Cipher where
  encrypt data :=
    let used := (nonce ++ List.replicate nonceLength 0).take nonceLength
    .ok (used ++ Gcm.encrypt (Sha256.digest key) used data)
  decrypt block :=
    if block.length < nonceLength then .error (.shorterThanNonce block.length)
    else
      match Gcm.decrypt? (Sha256.digest key) (block.take nonceLength) (block.drop nonceLength) with
      | some data => .ok data
      | none => .error .notAuthentic

end Cipher

namespace CipherError

def message : CipherError → String
  | .shorterThanNonce length =>
      s!"block of {length} bytes is shorter than its {Cipher.nonceLength}-byte nonce"
  | .notAuthentic => "wrong key or corrupted block"

end CipherError

end ScriptBundle
