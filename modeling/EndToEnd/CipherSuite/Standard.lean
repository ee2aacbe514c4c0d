/-
  The standard suite: SHA-2, HKDF, Argon2id, AES-256-GCM, X25519 and Ed25519.
-/
import EndToEnd.CipherSuite
import EndToEnd.Hash.Sha256
import EndToEnd.Hash.Sha512
import EndToEnd.Password.Argon2id
import EndToEnd.Aead.Gcm
import EndToEnd.Curve.X25519
import EndToEnd.Curve.Ed25519

namespace EndToEnd.CipherSuite

/-- A key from a password by Argon2id. -/
def stretchArgon2id (costs : KdfCosts) (password salt : Octets) : Except String (Block 32) :=
  let c : Argon2id.Costs := ⟨costs.memoryKib.toNat, costs.iterations.toNat, costs.parallelism.toNat⟩
  match c.refusal with
  | some r => .error ("Invalid Argon2 parameters: " ++ r.message)
  | none =>
    if salt.length < Argon2id.minSaltLength then
      .error ("Argon2 failed: " ++ Argon2id.Refusal.saltTooShort.message)
    else .ok (Argon2id.derive c password salt)

/-- The standard suite. -/
def standard : CipherSuite where
  sha256 := Sha256.digest
  sha512 := Sha512.digest
  expand := Hmac.expand
  stretch := stretchArgon2id
  lock := Gcm.encrypt
  unlock := Gcm.decrypt
  agreePublic := X25519.publicOf
  agree := X25519.agree
  signPublic := Ed25519.publicOf
  sign := Ed25519.sign
  isSigningKey := Ed25519.isPoint
  verify := Ed25519.verify

theorem standard_opens : standard.Opens :=
  fun _ _ _ _ _ h => Gcm.decrypt_encrypt h

end EndToEnd.CipherSuite
