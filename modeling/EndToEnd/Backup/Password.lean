/-
  What is made of passwords: the key pair that a backup is sealed for, and two passwords out of one.
-/
import EndToEnd.Key
import EndToEnd.Message.Text

namespace EndToEnd

/-- How the password of an identity becomes a key pair. -/
abbrev KeyDeriver := (identity password : String) → Except Error KeyPair

/-- The key pair of a stretched password, salted with the identity. -/
def KeyDeriver.stretching (S : CipherSuite) (costs : KdfCosts) : KeyDeriver :=
  fun identity password =>
    match stretchPassword S costs password (backupSalt S identity).octets with
    | .ok seed => .ok (KeyPair.ofSeed S seed)
    | .error e => .error (.keyDerivationFailed e.message)

/-- Two passwords made out of one, neither of which tells the other. -/
structure SplitPassword where
  /-- For signing in elsewhere. -/
  login : String
  /-- For the backup of the private key. -/
  backup : String
deriving DecidableEq

namespace SplitPassword

/-- The two halves of a password's digest. -/
def ofPassword (S : CipherSuite) (password : String) : Except Error SplitPassword :=
  match Message.requireText "password" password with
  | .error e => .error e
  | .ok () =>
    let digest := (S.sha512 (Utf8.encode password)).octets
    .ok ⟨Base64.text (digest.take 32), Base64.text (digest.drop 32)⟩

/-- A description that tells neither password. -/
def description (_ : SplitPassword) : String := "DerivedPasswords \x7b .. \x7d"

end SplitPassword

end EndToEnd
