/-
  What can go wrong, in three layers: the cryptographic operations, the remote backup store, and the
  library as a whole. Each error has a code, a kind and a wording; some can be retried and some need
  the user.
-/
namespace EndToEnd

/-- Failures of the cryptographic operations. -/
inductive CryptoError where
  /-- A signature fits none of the keys. -/
  | signatureNotValid
  /-- The reading key is not among those a message was sealed for. -/
  | recipientNotFound
  /-- Octets could not be taken apart. -/
  | invalidFormat (reason : String)
  | encryption (reason : String)
  /-- A message was tampered with, or its key is wrong. -/
  | decryption (reason : String)
  | invalidKey (reason : String)
  | keyDerivation (reason : String)
  /-- Reading from a source or writing to a sink failed. -/
  | stream (reason : String)
deriving DecidableEq, Inhabited

/-- The wording of a failure. -/
def CryptoError.message : CryptoError → String
  | signatureNotValid => "Signature is not valid"
  | recipientNotFound => "Decrypting key is not among the recipients"
  | invalidFormat reason => "Invalid format: " ++ reason
  | encryption reason => "Encryption failed: " ++ reason
  | decryption reason => "Decryption failed: " ++ reason
  | invalidKey reason => "Invalid key: " ++ reason
  | keyDerivation reason => "Key derivation failed: " ++ reason
  | stream reason => "Stream I/O failed: " ++ reason

/-- Failures of the remote backup store. -/
inductive TransportError where
  | entryAlreadyExists
  | entryNotFound
  /-- The entry is no longer the one that was read. -/
  | hashMismatch
  | unavailable (reason : String)
deriving DecidableEq, Inhabited

/-- The wording of a failure. -/
def TransportError.message : TransportError → String
  | entryAlreadyExists => "Backup entry already exists"
  | entryNotFound => "Backup entry not found"
  | hashMismatch => "Backup entry was modified concurrently"
  | unavailable reason => "Backup store unavailable: " ++ reason

/-- What an error is about, whatever its exact cause. -/
inductive ErrorKind where
  | invalidArgument
  | keyStateConflict
  | signatureVerification
  | backupConflict
  | wrongPassword
  | notFound
  | ambiguous
  | duplicateInput
  | crypto
  | storage
  | transport
  | internal
deriving DecidableEq

/-- Errors of the library. -/
inductive Error where
  | emptyArgument (name : String)
  /-- A list of recipients was given and holds none. -/
  | emptyRecipients
  | invalidArgument (reason : String)
  /-- Identities that were named more than once. -/
  | duplicateInput (identities : List String)
  /-- Text could not be turned into octets, or octets into text. -/
  | conversion (reason : String)
  /-- The new password is the old one. -/
  | samePassword
  | privateKeyExists
  | missingPrivateKey
  | userAlreadyRegistered (identity : String)
  | userNotRegistered (identity : String)
  /-- The data does not carry the expected sender's signature. -/
  | signatureVerification
  | crypto (cause : CryptoError)
  | keyDerivationFailed (reason : String)
  | cardNotFound (identity : String)
  /-- An identity has several current cards. -/
  | ambiguousCards (identity : String) (count : Nat)
  | cardVerification (reason : String)
  | invalidCardChain (reason : String)
  | backupAlreadyExists
  | wrongPassword
  | noBackupFound
  | storageRead (reason : String)
  | storageWrite (reason : String)
  | database (reason : String)
  | storageCorrupted (reason : String)
  | directory (reason : String)
  | backupTransport (reason : String)
  | internal (reason : String)
  | serialization (reason : String)
  | deserialization (reason : String)
deriving DecidableEq, Inhabited

namespace Error

/-- The number of an error; its hundreds tell the area. -/
def code : Error → Nat
  | emptyArgument _ => 100
  | emptyRecipients => 101
  | invalidArgument _ => 102
  | duplicateInput _ => 103
  | conversion _ => 104
  | samePassword => 105
  | privateKeyExists => 200
  | missingPrivateKey => 201
  | userAlreadyRegistered _ => 202
  | userNotRegistered _ => 203
  | signatureVerification => 300
  | crypto _ => 301
  | keyDerivationFailed _ => 302
  | cardNotFound _ => 400
  | ambiguousCards _ _ => 401
  | cardVerification _ => 402
  | invalidCardChain _ => 403
  | backupAlreadyExists => 500
  | wrongPassword => 501
  | noBackupFound => 502
  | storageRead _ => 600
  | storageWrite _ => 601
  | database _ => 602
  | storageCorrupted _ => 603
  | directory _ => 700
  | backupTransport _ => 701
  | internal _ => 900
  | serialization _ => 901
  | deserialization _ => 902

/-- The kind of an error. -/
def kind : Error → ErrorKind
  | emptyArgument _ | emptyRecipients | invalidArgument _ | conversion _ | samePassword
  | invalidCardChain _ => .invalidArgument
  | duplicateInput _ => .duplicateInput
  | privateKeyExists | missingPrivateKey | userAlreadyRegistered _ => .keyStateConflict
  | signatureVerification | crypto .signatureNotValid => .signatureVerification
  | crypto _ | keyDerivationFailed _ | cardVerification _ => .crypto
  | cardNotFound _ | userNotRegistered _ | noBackupFound => .notFound
  | ambiguousCards _ _ => .ambiguous
  | backupAlreadyExists => .backupConflict
  | wrongPassword => .wrongPassword
  | storageRead _ | storageWrite _ | database _ | storageCorrupted _ => .storage
  | directory _ | backupTransport _ => .transport
  | internal _ | serialization _ | deserialization _ => .internal

/-- Whether trying again, or looking the sender's card up again, may help. -/
def isRecoverable : Error → Bool
  | directory _ | backupTransport _ | signatureVerification => true
  | _ => false

/-- Whether the user has to decide something. -/
def needsUser : Error → Bool
  | wrongPassword | samePassword | privateKeyExists | missingPrivateKey | backupAlreadyExists
  | noBackupFound => true
  | _ => false

/-- The wording of an error. -/
def message : Error → String
  | emptyArgument name => "Argument must not be empty: " ++ name
  | emptyRecipients => "Recipient key list was provided but is empty"
  | invalidArgument reason => "Invalid argument: " ++ reason
  | duplicateInput identities => "Duplicate identities in lookup: " ++ ", ".intercalate identities
  | conversion reason => "Conversion failed: " ++ reason
  | samePassword => "New password must differ from the old one"
  | privateKeyExists => "A private key already exists in local storage. Call cleanup() first."
  | missingPrivateKey => "No private key found in local storage. Register or restore first."
  | userAlreadyRegistered identity => "User is already registered: " ++ identity
  | userNotRegistered identity => "User is not registered: " ++ identity
  | signatureVerification =>
    "Signature verification failed. The sender may have rotated keys; look up their card again."
  | crypto cause => cause.message
  | keyDerivationFailed reason => "Failed to derive keys: " ++ reason
  | cardNotFound identity => "Card not found: " ++ identity
  | ambiguousCards identity count => s!"Found {count} current cards for identity {identity}"
  | cardVerification reason => "Card verification failed: " ++ reason
  | invalidCardChain reason => "Invalid card chain: " ++ reason
  | backupAlreadyExists => "A private key backup already exists for this identity"
  | wrongPassword => "Wrong backup password"
  | noBackupFound => "No private key backup found"
  | storageRead reason => "Failed to read from storage: " ++ reason
  | storageWrite reason => "Failed to write to storage: " ++ reason
  | database reason => "Database error: " ++ reason
  | storageCorrupted reason => "Data corruption detected: " ++ reason
  | directory reason => "Card directory error: " ++ reason
  | backupTransport reason => "Backup store error: " ++ reason
  | internal reason => "Internal error: " ++ reason
  | serialization reason => "Serialization error: " ++ reason
  | deserialization reason => "Deserialization error: " ++ reason

/-- An entry that is already there has an error of its own; the rest is the store's fault. -/
def ofTransport : TransportError → Error
  | .entryAlreadyExists => backupAlreadyExists
  | e => backupTransport e.message

/-- A signature that does not fit has an error of its own, so that the sender's card can be looked
up again. -/
def ofDecryption : CryptoError → Error
  | .signatureNotValid => signatureVerification
  | e => crypto e

end Error

end EndToEnd
