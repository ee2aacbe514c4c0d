/-
  The cryptographic operations that the protocols are built from, as one value.

  The protocols take a suite as an argument and use nothing else of cryptography. What they rely on
  is said by `Agrees`, `Opens` and `Accepts`: that key agreement gives both sides the same secret,
  that what was sealed opens, and that a signature is accepted under its own key.
-/
import EndToEnd.Octets

namespace EndToEnd

/-- Costs of turning a password into a key: memory in KiB, passes over it, and lanes. -/
structure KdfCosts where
  memoryKib : UInt32
  iterations : UInt32
  parallelism : UInt32
deriving DecidableEq, Inhabited

/-- Cryptographic operations. -/
structure CipherSuite where
  /-- A digest of 32 octets. -/
  sha256 : Octets → Block 32
  /-- A digest of 64 octets. -/
  sha512 : Octets → Block 64
  /-- A key from a salt, a secret and a purpose. -/
  expand : (salt secret purpose : Octets) → Block 32
  /-- A key from a password and a salt, or why the costs or the salt are refused. -/
  stretch : KdfCosts → (password salt : Octets) → Except String (Block 32)
  /-- A message sealed under a key and a nonce together with octets that stay in the open. -/
  lock : (key : Block 32) → (nonce : Block 12) → (associated message : Octets) → Option Octets
  /-- The message of sealed octets that nobody changed. -/
  unlock : (key : Block 32) → (nonce : Block 12) → (associated sealed : Octets) → Option Octets
  /-- The public value of an agreement secret. -/
  agreePublic : Block 32 → Block 32
  /-- What a secret and another party's public value agree on. -/
  agree : (secret theirs : Block 32) → Block 32
  /-- The public key of a signing secret. -/
  signPublic : Block 32 → Block 32
  /-- The signature of a message. -/
  sign : (secret : Block 32) → (message : Octets) → Block 64
  /-- Whether a public key can be used to verify at all. -/
  isSigningKey : Block 32 → Bool
  /-- Whether a signature fits a public key and a message. -/
  verify : (key : Block 32) → (message : Octets) → (signature : Block 64) → Bool

namespace CipherSuite

/-- Key agreement gives both sides the same secret. -/
def Agrees (S : CipherSuite) : Prop :=
  ∀ a b, S.agree a (S.agreePublic b) = S.agree b (S.agreePublic a)

/-- What was sealed opens. -/
def Opens (S : CipherSuite) : Prop :=
  ∀ key nonce associated message sealed,
    S.lock key nonce associated message = some sealed →
      S.unlock key nonce associated sealed = some message

/-- A signature is accepted under its own key. -/
def Accepts (S : CipherSuite) : Prop :=
  ∀ secret message,
    S.isSigningKey (S.signPublic secret) = true ∧
      S.verify (S.signPublic secret) message (S.sign secret message) = true

end CipherSuite

end EndToEnd
