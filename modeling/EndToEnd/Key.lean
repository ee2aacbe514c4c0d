/-
  Keys: the two secrets of an identity, their public halves, and signatures.

  A public key is addressed by a short id, the first octets of its digest. `ofPrivateOctets` accepts
  exactly what `privateOctets` gives.
-/
import EndToEnd.CipherSuite
import EndToEnd.Error
import EndToEnd.Json.Record
import EndToEnd.Random

namespace EndToEnd

/-- The short id of a public key. -/
abbrev KeyId := Block 8

/-- A signature. -/
abbrev Signature := Block 64

/-- The public halves of a key pair. -/
structure PublicKey where
  /-- For verifying signatures. -/
  signing : Block 32
  /-- For agreeing on keys. -/
  encryption : Block 32
deriving DecidableEq, Inhabited

/-- The two secrets of an identity. -/
structure KeyPair where
  signing : Block 32
  encryption : Block 32
deriving DecidableEq, Inhabited

/-- The octets of a hexadecimal text, if there are `n` of them. -/
def hexBlock? (n : Nat) (s : String) : Option (Block n) :=
  match Hex.decode s.toList with
  | .ok o => Block.ofOctets? n o
  | .error _ => none

/-- The hexadecimal text of a block. -/
def Block.hex {n : Nat} (b : Block n) : String := Hex.text b.octets

namespace PublicKey

/-- Both halves, one after the other. -/
def octets (k : PublicKey) : Octets := k.signing.octets ++ k.encryption.octets

/-- The short id of a key. -/
def keyId (S : CipherSuite) (k : PublicKey) : KeyId :=
  ⟨(S.sha512 k.octets).octets.take 8, by simp⟩

/-- The hexadecimal text of a key. -/
def hex (k : PublicKey) : String := Hex.text k.octets

/-- The key with a hexadecimal text. -/
def ofHex (s : String) : Except CryptoError PublicKey :=
  if s.utf8ByteSize ≠ 128 then .error (.invalidKey "Public key hex must be 128 characters")
  else
    match Hex.decode s.toList with
    | .error e => .error (.invalidKey ("Invalid hex: " ++ e.message))
    | .ok o =>
      match Block.ofOctets? 32 (o.take 32), Block.ofOctets? 32 (o.drop 32) with
      | some signing, some encryption => .ok ⟨signing, encryption⟩
      | none, _ => .error (.invalidKey "Invalid signing key length")
      | _, none => .error (.invalidKey "Invalid encryption key length")

/-- Whether the signing half can verify anything. -/
def checkSigning (S : CipherSuite) (k : PublicKey) : Except CryptoError Unit :=
  if S.isSigningKey k.signing then .ok ()
  else .error (.invalidKey
    "Invalid signing public key: signature error: Cannot decompress Edwards point")

/-- The JSON form of a key. -/
def toJson (k : PublicKey) : Json :=
  .record [(some "signing", .text k.signing.hex), (some "encryption", .text k.encryption.hex)]

/-- A key from its JSON form. -/
def ofJson? (v : Json) : Option PublicKey :=
  match v.fields? ["signing", "encryption"] with
  | some [s, e] => do
    let s ← Json.required s Json.text?
    let e ← Json.required e Json.text?
    some ⟨← hexBlock? 32 s, ← hexBlock? 32 e⟩
  | _ => none

/-- Checks a signature. A key that can verify nothing is reported as such. -/
def verify (S : CipherSuite) (k : PublicKey) (message : Octets) (signature : Signature) :
    Except CryptoError Unit :=
  match k.checkSigning S with
  | .error e => .error e
  | .ok () =>
    if S.verify k.signing message signature then .ok () else .error .signatureNotValid

end PublicKey

namespace Signature

/-- The signature with these octets. -/
def ofOctets (o : Octets) : Except CryptoError Signature :=
  match Block.ofOctets? 64 o with
  | some s => .ok s
  | none => .error (.invalidFormat s!"Signature must be 64 bytes, got {o.length}")

/-- The JSON form of a signature. -/
def toJson (s : Signature) : Json := .text s.hex

/-- A signature from its JSON form. -/
def ofJson? (v : Json) : Option Signature := v.text?.bind (hexBlock? 64)

end Signature

namespace KeyPair

/-- What the signing secret is derived for. -/
def signingPurpose : Octets := Utf8.encode "ethree-signing-key-v1"

/-- What the agreement secret is derived for. -/
def encryptionPurpose : Octets := Utf8.encode "ethree-encryption-key-v1"

/-- The key pair that a seed stands for. -/
def ofSeed (S : CipherSuite) (seed : Block 32) : KeyPair :=
  ⟨S.expand [] seed.octets signingPurpose, S.expand [] seed.octets encryptionPurpose⟩

/-- A fresh key pair: the signing secret is read first. -/
def generate : Draw KeyPair := do
  let signing ← Draw.block 32
  let encryption ← Draw.block 32
  return ⟨signing, encryption⟩

/-- The public halves of a key pair. -/
def publicKey (S : CipherSuite) (k : KeyPair) : PublicKey :=
  ⟨S.signPublic k.signing, S.agreePublic k.encryption⟩

/-- The short id of a key pair's public half. -/
def keyId (S : CipherSuite) (k : KeyPair) : KeyId := (k.publicKey S).keyId S

/-- Both secrets, one after the other. -/
def privateOctets (k : KeyPair) : Octets := k.signing.octets ++ k.encryption.octets

/-- The key pair with these secrets. -/
def ofPrivateOctets (o : Octets) : Except CryptoError KeyPair :=
  match Block.ofOctets? 32 (o.take 32), Block.ofOctets? 32 (o.drop 32) with
  | some signing, some encryption => .ok ⟨signing, encryption⟩
  | _, _ => .error (.invalidKey s!"Private key must be 64 bytes, got {o.length}")

/-- A description of a key pair that tells no secret. -/
def description (S : CipherSuite) (k : KeyPair) : String :=
  "KeyPair \x7b key_id: \"" ++ (k.keyId S).hex ++ "\", .. \x7d"

/-- The signature of a message. -/
def sign (S : CipherSuite) (k : KeyPair) (message : Octets) : Signature := S.sign k.signing message

theorem ofPrivateOctets_privateOctets (k : KeyPair) : ofPrivateOctets k.privateOctets = .ok k := by
  simp [ofPrivateOctets, privateOctets]

theorem privateOctets_of_ofPrivateOctets {o : Octets} {k : KeyPair}
    (h : ofPrivateOctets o = .ok k) : k.privateOctets = o := by
  unfold ofPrivateOctets at h
  split at h
  · rename_i s e hs he
    cases h
    rw [Block.ofOctets?_eq_some] at hs he
    simp [privateOctets, ← hs, ← he]
  · cases h

end KeyPair

/-- What the salt of a password starts with. -/
def backupSaltPurpose : Octets := Utf8.encode "ethree-backup-salt"

/-- The salt with which the passwords of an identity are stretched. -/
def backupSalt (S : CipherSuite) (identity : String) : Block 32 :=
  S.sha256 (backupSaltPurpose ++ Utf8.encode identity)

/-- The seed that a password is stretched to. -/
def stretchPassword (S : CipherSuite) (costs : KdfCosts) (password : String) (salt : Octets) :
    Except CryptoError (Block 32) :=
  match S.stretch costs (Utf8.encode password) salt with
  | .ok seed => .ok seed
  | .error reason => .error (.keyDerivation reason)

end EndToEnd
