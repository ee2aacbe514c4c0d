/-
  The names of errors, which tell errors apart whatever their wording is. Every error is found again
  by its name and what it is about.
-/
import EndToEnd.Error

namespace EndToEnd

namespace CryptoError

/-- The name of a failure. -/
def name : CryptoError → String
  | signatureNotValid => "SignatureNotValid"
  | recipientNotFound => "RecipientNotFound"
  | invalidFormat _ => "InvalidFormat"
  | encryption _ => "Encryption"
  | decryption _ => "Decryption"
  | invalidKey _ => "InvalidKey"
  | keyDerivation _ => "KeyDerivation"
  | stream _ => "Io"

/-- What a failure is about. -/
def subject : CryptoError → String
  | signatureNotValid | recipientNotFound => ""
  | invalidFormat s | encryption s | decryption s | invalidKey s | keyDerivation s | stream s => s

/-- The failure with a name. -/
def ofName? (name subject : String) : Option CryptoError :=
  [signatureNotValid, recipientNotFound, invalidFormat subject, encryption subject,
    decryption subject, invalidKey subject, keyDerivation subject, stream subject].find? fun e =>
      e.name = name

theorem ofName?_name (e : CryptoError) : ofName? e.name e.subject = some e := by
  cases e <;> simp [ofName?, name, subject]

end CryptoError

namespace TransportError

/-- The name of a failure. -/
def name : TransportError → String
  | entryAlreadyExists => "EntryAlreadyExists"
  | entryNotFound => "EntryNotFound"
  | hashMismatch => "HashMismatch"
  | unavailable _ => "Unavailable"

/-- What a failure is about. -/
def subject : TransportError → String
  | unavailable s => s
  | _ => ""

/-- The failure with a name. -/
def ofName? (name subject : String) : Option TransportError :=
  [entryAlreadyExists, entryNotFound, hashMismatch, unavailable subject].find? fun e =>
    e.name = name

theorem ofName?_name (e : TransportError) : ofName? e.name e.subject = some e := by
  cases e <;> simp [ofName?, name, subject]

end TransportError

/-- The name of a kind. -/
def ErrorKind.name : ErrorKind → String
  | invalidArgument => "InvalidArgument"
  | keyStateConflict => "KeyStateConflict"
  | signatureVerification => "SignatureVerification"
  | backupConflict => "BackupConflict"
  | wrongPassword => "WrongPassword"
  | notFound => "NotFound"
  | ambiguous => "Ambiguous"
  | duplicateInput => "DuplicateInput"
  | crypto => "Crypto"
  | storage => "Storage"
  | transport => "Transport"
  | internal => "Internal"

namespace Error

/-- The name of an error. -/
def name : Error → String
  | emptyArgument _ => "EmptyArgument"
  | emptyRecipients => "EmptyRecipients"
  | invalidArgument _ => "InvalidArgument"
  | duplicateInput _ => "DuplicateInput"
  | conversion _ => "Conversion"
  | samePassword => "SamePassword"
  | privateKeyExists => "PrivateKeyExists"
  | missingPrivateKey => "MissingPrivateKey"
  | userAlreadyRegistered _ => "UserAlreadyRegistered"
  | userNotRegistered _ => "UserNotRegistered"
  | signatureVerification => "SignatureVerification"
  | crypto _ => "Crypto"
  | keyDerivationFailed _ => "KeyDerivationFailed"
  | cardNotFound _ => "CardNotFound"
  | ambiguousCards _ _ => "AmbiguousCards"
  | cardVerification _ => "CardVerification"
  | invalidCardChain _ => "InvalidCardChain"
  | backupAlreadyExists => "BackupAlreadyExists"
  | wrongPassword => "WrongPassword"
  | noBackupFound => "NoBackupFound"
  | storageRead _ => "StorageReadError"
  | storageWrite _ => "StorageWriteError"
  | database _ => "DatabaseError"
  | storageCorrupted _ => "StorageCorrupted"
  | directory _ => "Directory"
  | backupTransport _ => "BackupTransport"
  | internal _ => "Internal"
  | serialization _ => "SerializationError"
  | deserialization _ => "DeserializationError"

/-- What an error may be about. -/
structure Subject where
  text : String
  identities : List String
  count : Nat
  cause : CryptoError

/-- The errors that may be about something, one of each name. -/
def all (s : Subject) : List Error :=
  [emptyArgument s.text, emptyRecipients, invalidArgument s.text, duplicateInput s.identities,
    conversion s.text, samePassword, privateKeyExists, missingPrivateKey,
    userAlreadyRegistered s.text, userNotRegistered s.text, signatureVerification, crypto s.cause,
    keyDerivationFailed s.text, cardNotFound s.text, ambiguousCards s.text s.count,
    cardVerification s.text, invalidCardChain s.text, backupAlreadyExists, wrongPassword,
    noBackupFound, storageRead s.text, storageWrite s.text, database s.text,
    storageCorrupted s.text, directory s.text, backupTransport s.text, internal s.text,
    serialization s.text, deserialization s.text]

/-- The error with a name. -/
def ofName? (name : String) (s : Subject) : Option Error := (all s).find? fun e => e.name = name

/-- What an error is about. -/
def subject : Error → Subject
  | emptyArgument s | invalidArgument s | conversion s | userAlreadyRegistered s
  | userNotRegistered s | keyDerivationFailed s | cardNotFound s | cardVerification s
  | invalidCardChain s | storageRead s | storageWrite s | database s | storageCorrupted s
  | directory s | backupTransport s | internal s | serialization s | deserialization s =>
    ⟨s, [], 0, default⟩
  | duplicateInput l => ⟨"", l, 0, default⟩
  | ambiguousCards s n => ⟨s, [], n, default⟩
  | crypto e => ⟨"", [], 0, e⟩
  | emptyRecipients | samePassword | privateKeyExists | missingPrivateKey | signatureVerification
  | backupAlreadyExists | wrongPassword | noBackupFound => ⟨"", [], 0, default⟩

theorem ofName?_name (e : Error) : ofName? e.name e.subject = some e := by
  cases e <;> simp [ofName?, all, name, subject]

end Error

end EndToEnd
