/-
  Reports: values of the library as JSON records, for people and other programs to look at.
-/
import EndToEnd.Backup.Store
import EndToEnd.Card.Cache
import EndToEnd.Envelope.Basic
import EndToEnd.Error.Name

namespace EndToEnd

namespace Json

/-- A record with named members. -/
def object (members : List (String × Json)) : Json := .record (members.map fun m => (some m.1, m.2))

/-- A number. -/
def ofNat (n : Nat) : Json := .int n

/-- A point in time. -/
def ofTime (t : Timestamp) : Json := .int t.toInt

/-- The digits of a block. -/
def ofBlock {n : Nat} (b : Block n) : Json := .text b.hex

/-- Texts, in order. -/
def ofTexts (l : List String) : Json := .list (l.map .text)

/-- A value that may be missing. -/
def ofOption {α : Type} (f : α → Json) : Option α → Json
  | none => .null
  | some a => f a

end Json

/-- The report of a failure. -/
def CryptoError.report (e : CryptoError) : Json :=
  .object [("error", .text e.name), ("message", .text e.message)]

/-- The report of a failure. -/
def TransportError.report (e : TransportError) : Json :=
  .object [("error", .text e.name), ("message", .text e.message)]

/-- The report of an error. -/
def Error.report (e : Error) : Json :=
  .object [("error", .text e.name), ("kind", .text e.kind.name), ("code", .ofNat e.code),
    ("recoverable", .bool e.isRecoverable), ("user_action", .bool e.needsUser),
    ("message", .text e.message)]

/-- The report of a public key. -/
def PublicKey.report (S : CipherSuite) (k : PublicKey) : Json :=
  .object [("hex", .text k.hex), ("key_id", .ofBlock (k.keyId S)), ("json", .text k.toJson.render)]

/-- The report of a key pair, which tells its secrets too. -/
def KeyPair.report (S : CipherSuite) (k : KeyPair) : Json :=
  let p := k.publicKey S
  .object [("public", p.report S), ("key_id", .ofBlock (k.keyId S)),
    ("debug", .text (k.description S)), ("private", .text (Hex.text k.privateOctets)),
    ("signing_public", .ofBlock p.signing), ("encryption_public", .ofBlock p.encryption)]

/-- The report of an envelope's header. -/
def Envelope.Header.report (h : Envelope.Header) : Json :=
  .object [("version", .ofNat h.version.toNat), ("mode", .text h.mode.name),
    ("ephemeral", .ofBlock h.ephemeral),
    ("recipients", .list (h.slots.map fun s =>
      .list [.ofBlock s.keyId, .ofBlock s.nonce, .text (Hex.text s.wrapped)])),
    ("recipient_ids", .list (h.recipientIds.map .ofBlock)),
    ("signer_id", .ofOption .ofBlock h.signerId), ("signature", .ofOption .ofBlock h.signature)]

/-- The report of a card with its predecessors. -/
def CardChain.report (S : CipherSuite) (c : CardChain) : Json :=
  .object [("id", .text c.head.id), ("identity", .text c.head.identity),
    ("key_id", .ofBlock (c.head.publicKey.keyId S)), ("created_at", .ofTime c.head.createdAt),
    ("outdated", .bool c.head.outdated), ("prev_id", .ofOption .text c.head.previousId),
    ("chain", .list (c.ancestors.map fun a =>
      .list [.text a.id, .ofTime a.createdAt, .bool a.outdated]))]

/-- The report of a row of the card cache. -/
def CardRow.report (r : CardRow) : Json :=
  .object [("id", .text r.id), ("identity", .text r.identity), ("outdated", .bool r.outdated),
    ("prev_id", .ofOption .text r.previousId), ("created_at", .ofTime r.createdAt),
    ("raw", .text r.raw)]

/-- The report of a backup, whose ciphertext is shown by `showOctets`. -/
def BackupEntry.report (showOctets : Octets → Json) (e : BackupEntry) : Json :=
  .object [("identity", .text e.identity), ("key_name", .text e.keyName),
    ("ciphertext", showOctets e.ciphertext),
    ("meta", .object (e.notes.map fun n => (n.1, .text n.2))), ("hash", .text e.hash),
    ("created_at", .ofTime e.createdAt), ("updated_at", .ofTime e.updatedAt)]

/-- What a policy is called in reports. -/
def DuplicatePolicy.title : DuplicatePolicy → String
  | reject => "Reject"
  | preferNewest => "PreferNewest"

/-- The report of settings. -/
def Settings.report (s : Settings) : Json :=
  let c := s.throttleCooldown
  .object [("identity", .text s.identity), ("key_name", .ofOption .text s.keyName),
    ("throttle_cooldown_ms", .ofNat s.throttleCooldownMs.toNat),
    ("duplicate_card_policy", .text s.duplicateCardPolicy.title),
    ("card_cache_path", .ofOption .text s.cardCachePath),
    ("kdf", .list [.ofNat s.kdf.memoryKib.toNat, .ofNat s.kdf.iterations.toNat,
      .ofNat s.kdf.parallelism.toNat]),
    ("backup_key_name", .text s.backupKeyName),
    ("cooldown", .list [.ofNat c.seconds.toNat, .ofNat c.nanoseconds.toNat]),
    ("json", .text s.toJson.render)]

end EndToEnd
