/-
  Messages between identities: sealed with the private key in the key store, for the holders of given
  keys and always for the sender too, and opened with the key of the sender's card.
-/
import EndToEnd.Card.Basic
import EndToEnd.KeyStore
import EndToEnd.Message.Text

namespace EndToEnd.Message

/-- How a message vouches for its sender. -/
inductive Format where
  /-- The signature is sealed with the data. -/
  | authenticated
  /-- The signature stays in the open. -/
  | signed
deriving DecidableEq

namespace Format

/-- Seals data in a format. -/
def encrypt (S : CipherSuite) (data : Octets) (sender : KeyPair) (recipients : List PublicKey) :
    Format → Envelope.Sealing Octets
  | authenticated => Envelope.authEncrypt S data sender recipients
  | signed => Envelope.signThenEncrypt S data sender recipients

/-- Opens a message in a format and checks that it is a given sender's. -/
def decrypt (S : CipherSuite) (sealed : Octets) (recipient : KeyPair) (sender : PublicKey) :
    Format → Except CryptoError Octets
  | authenticated => Envelope.authDecrypt S sealed recipient sender
  | signed => Envelope.decryptThenVerify S sealed recipient [sender]

end Format

/-- Who a message is sealed for: the sender first, then the others. No list means nobody else, but an
empty one is refused. -/
def recipients (own : PublicKey) : Option (List PublicKey) → Except Error (List PublicKey)
  | none => .ok [own]
  | some [] => .error .emptyRecipients
  | some others => .ok (own :: others)

/-- Seals data from an identity for others. -/
def encrypt (S : CipherSuite) (format : Format) (identity : String) (data : Octets)
    (others : Option (List PublicKey)) : Action Vault Octets := do
  Action.lift (requireData data)
  let key ← Vault.loadKey S identity
  let readers ← Action.lift (recipients (key.publicKey S) others)
  Vault.sealing .crypto (format.encrypt S data key readers)

/-- Seals a text from an identity for others, in text form. -/
def encryptText (S : CipherSuite) (format : Format) (identity text : String)
    (others : Option (List PublicKey)) : Action Vault String := do
  Action.lift (requireText "text" text)
  encodeText <$> encrypt S format identity (Utf8.encode text) others

/-- Opens a message to an identity that a sender sealed; no sender means the identity itself. -/
def decrypt (S : CipherSuite) (format : Format) (identity : String) (sealed : Octets)
    (sender : Option PublicKey) : Action Vault Octets := do
  Action.lift (requireData sealed)
  let key ← Vault.loadKey S identity
  Action.lift ((format.decrypt S sealed key (sender.getD (key.publicKey S))).mapError
    Error.ofDecryption)

/-- Opens a message with the key that its sender had at a time. -/
def decryptAt (S : CipherSuite) (format : Format) (identity : String) (sealed : Octets)
    (sender : CardChain) (asOf : Timestamp) : Action Vault Octets :=
  decrypt S format identity sealed (some (sender.cardAt asOf).publicKey)

/-- Opens a message in text form, with an action that opens its octets, and reads it as text. -/
def readText (text : String) (decrypt : Octets → Action Vault Octets) : Action Vault String := do
  let sealed ← Action.lift (decodeText text)
  let data ← decrypt sealed
  Action.lift (plainText data)

/-- Opens a text that a sender sealed; no sender means the identity itself. -/
def decryptText (S : CipherSuite) (format : Format) (identity text : String)
    (sender : Option PublicKey) : Action Vault String :=
  readText text (decrypt S format identity · sender)

/-- Opens a text with the key that its sender had at a time. -/
def decryptTextAt (S : CipherSuite) (format : Format) (identity text : String)
    (sender : CardChain) (asOf : Timestamp) : Action Vault String :=
  readText text (decryptAt S format identity · sender asOf)

/-- Opens a signed message that one of several keys may have signed. -/
def decryptWithKeys (S : CipherSuite) (identity : String) (sealed : Octets)
    (verifiers : List PublicKey) : Action Vault Octets := do
  if verifiers.isEmpty then throw (.emptyArgument "verifier_keys")
  else
    Action.lift (requireData sealed)
    let key ← Vault.loadKey S identity
    Action.lift ((Envelope.decryptThenVerify S sealed key verifiers).mapError Error.ofDecryption)

end EndToEnd.Message
