/-
  A device: everything that one identity does on one machine.

  Registering publishes a first card and keeps its private key; rotating publishes a card for a new
  key in place of the current one. The key is stored only after the directory has taken the card, and
  the card is cached last, with its predecessors.
-/
import EndToEnd.Backup.Workflow
import EndToEnd.Card.File
import EndToEnd.Lookup
import EndToEnd.Message.Streamed

namespace EndToEnd

/-- Whose device it is, how passwords become keys on it, and whether somebody listens for changed
keys. -/
structure Device where
  settings : Settings
  derive : KeyDeriver
  listening : Bool

/-- What a device works on. -/
structure Site where
  vault : Vault
  cache : CardCache
  directory : DirectoryLink
  backups : BackupLink
  now : Timestamp
  /-- The identities whose keys were reported as changed. -/
  reported : List String

namespace Site

/-- An action on the private keys. -/
def inVault {α : Type} (x : Action Vault α) : Action Site α :=
  Action.on Site.vault (fun s vault => { s with vault }) x

/-- An action on the card cache. -/
def inCache {α : Type} (x : Action CardCache α) : Action Site α :=
  Action.on Site.cache (fun s cache => { s with cache }) x

/-- A call to the directory. -/
def call {α : Type} (x : Action DirectoryLink α) : Action Site α :=
  Action.on Site.directory (fun s directory => { s with directory }) x

/-- A lookup. -/
def inLookup {α : Type} (x : Action LookupDesk α) : Action Site α :=
  Action.on (fun s => ⟨s.cache, s.directory, s.reported⟩)
    (fun s d => { s with cache := d.cache, directory := d.link, reported := d.reported }) x

/-- A step of backing up. -/
def inBackup {α : Type} (x : Action BackupDesk α) : Action Site α :=
  Action.on (fun s => ⟨s.vault, s.backups, s.now⟩)
    (fun s d => { s with vault := d.vault, backups := d.link }) x

end Site

namespace Device

open Site

/-- A device with usable settings. Passwords are stretched unless another way is given. -/
def ofSettings (S : CipherSuite) (settings : Settings) (derive : Option KeyDeriver)
    (listening : Bool) : Except Error Device :=
  match settings.validate with
  | .error e => .error e
  | .ok () => .ok ⟨settings, derive.getD (.stretching S settings.kdf), listening⟩

/-- The card cache of a device with settings, where it is kept in a file; `files` tells what is kept
under a path, or that nothing can be kept there. Without a path, the cache is new. -/
def openCache (files : String → Option CardFile) (settings : Settings) : Except Error CardCache :=
  let cache := CardCache.empty settings.duplicateCardPolicy
  match settings.cardCachePath with
  | none => .ok cache
  | some path =>
    match files path with
    | none => .error CardFile.unreachable
    | some file => file.load.map fun f => { cache with rows := f.rows }

/-- Whose device it is. -/
def identity (d : Device) : String := d.settings.identity

/-- How the private key is backed up. -/
def keyBackup (d : Device) : KeyBackup := ⟨d.identity, d.settings.backupKeyName, d.derive⟩

/-- When a new card is created: now, but after the card that it replaces. -/
def timeAfter (now : Timestamp) : Option Timestamp → Timestamp
  | none => now
  | some previous => max now previous.following

/-- Whether the device has a private key. -/
def hasKey (d : Device) : Action Site Bool := inVault (Vault.hasKey d.identity)

/-- Publishes a card for a key, stores the key and caches the card. -/
def publish (S : CipherSuite) (d : Device) (key : KeyPair) (previous : Option CardChain) :
    Action Site CardChain := do
  let createdAt := timeAfter (← get).now (previous.map (·.head.createdAt))
  let raw ← Action.lift
    (RawCard.generate S key d.identity (previous.map (·.head.id)) createdAt)
  let card ← call (DirectoryLink.publish S raw)
  inVault (Vault.storeKey S d.identity key)
  let chain := match previous with
    | none => CardChain.single card
    | some p => CardChain.extend card p.outdate
  inCache (CardCache.storeChain chain)
  pure chain

/-- Registers the identity with a key. -/
def registerWith (S : CipherSuite) (d : Device) (key : KeyPair) : Action Site CardChain := do
  inVault (Vault.requireNoKey d.identity)
  match ← call (DirectoryLink.search d.identity) with
  | [] => d.publish S key none
  | _ => throw (.userAlreadyRegistered d.identity)

/-- Registers the identity with a new key. -/
def register (S : CipherSuite) (d : Device) : Action Site CardChain := do
  let key ← inVault (Vault.draw KeyPair.generate)
  d.registerWith S key

/-- Gives a registered identity whose key is lost a new one. -/
def rotate (S : CipherSuite) (d : Device) : Action Site CardChain := do
  inVault (Vault.requireNoKey d.identity)
  match ← call (DirectoryLink.search d.identity) with
  | [] => throw (.userNotRegistered d.identity)
  | cards =>
    let current ← Action.lift (d.settings.duplicateCardPolicy.select d.identity cards)
    let key ← inVault (Vault.draw KeyPair.generate)
    d.publish S key (some current)

/-- Revokes the identity's cards and forgets its key and all cached cards. -/
def unregister (d : Device) : Action Site Unit := do
  match ← call (DirectoryLink.search d.identity) with
  | [] => throw (.userNotRegistered d.identity)
  | cards =>
    Action.each (fun c : CardChain => call (DirectoryLink.revoke c.head.id)) cards
    let _ ← inVault (Vault.deleteKey d.identity)
    inCache CardCache.reset

/-- Forgets the identity's key and all cached cards. -/
def cleanUp (d : Device) : Action Site Unit := do
  if ← inVault (Vault.deleteKey d.identity) then inCache CardCache.reset
  else throw .missingPrivateKey

/-- The keys of found cards. -/
def keysOf (users : FoundCards) : List PublicKey := users.rows.map (·.head.publicKey)

/-- Seals data for users. -/
def encrypt (S : CipherSuite) (d : Device) (format : Message.Format) (data : Octets)
    (users : Option FoundCards) : Action Site Octets :=
  inVault (Message.encrypt S format d.identity data (users.map keysOf))

/-- Seals data for one user. -/
def encryptFor (S : CipherSuite) (d : Device) (data : Octets) (user : CardChain) :
    Action Site Octets :=
  d.encrypt S .authenticated data (some (FoundCards.ofList [user]))

/-- Seals a text for users, in text form. -/
def encryptText (S : CipherSuite) (d : Device) (format : Message.Format) (text : String)
    (users : Option FoundCards) : Action Site String :=
  inVault (Message.encryptText S format d.identity text (users.map keysOf))

/-- Opens what a sender sealed; no sender means the device's own identity. -/
def decrypt (S : CipherSuite) (d : Device) (format : Message.Format) (sealed : Octets)
    (sender : Option CardChain) : Action Site Octets :=
  inVault (Message.decrypt S format d.identity sealed (sender.map (·.head.publicKey)))

/-- Opens what a sender sealed with the key of a given time. -/
def decryptAt (S : CipherSuite) (d : Device) (format : Message.Format) (sealed : Octets)
    (sender : CardChain) (asOf : Timestamp) : Action Site Octets :=
  inVault (Message.decryptAt S format d.identity sealed sender asOf)

/-- Opens a text that a sender sealed; no sender means the device's own identity. -/
def decryptText (S : CipherSuite) (d : Device) (format : Message.Format) (text : String)
    (sender : Option CardChain) : Action Site String :=
  inVault (Message.decryptText S format d.identity text (sender.map (·.head.publicKey)))

/-- Opens a text that a sender sealed with the key of a given time. -/
def decryptTextAt (S : CipherSuite) (d : Device) (format : Message.Format) (text : String)
    (sender : CardChain) (asOf : Timestamp) : Action Site String :=
  inVault (Message.decryptTextAt S format d.identity text sender asOf)

/-- Opens a signed message that one of several keys may have signed. -/
def decryptWithKeys (S : CipherSuite) (d : Device) (sealed : Octets) (verifiers : List PublicKey) :
    Action Site Octets :=
  inVault (Message.decryptWithKeys S d.identity sealed verifiers)

/-- An action on a fresh sink, and the octets that it has then. -/
def intoSink (sink : Stream.Sink) (x : Action StreamDesk Nat) : Action Site Octets := fun s =>
  let (r, desk) := x ⟨s.vault, sink⟩
  (r.map fun _ => desk.sink.octets, { s with vault := desk.vault })

/-- Seals a stream for users into a sink. -/
def encryptStream (S : CipherSuite) (d : Device) (source : Stream.Source) (sink : Stream.Sink)
    (users : Option FoundCards) : Action Site Octets :=
  intoSink sink (StreamDesk.encrypt S d.identity source (users.map keysOf))

/-- Opens a sealed stream into a sink. -/
def decryptStream (S : CipherSuite) (d : Device) (source : Stream.Source) (sink : Stream.Sink) :
    Action Site Octets :=
  intoSink sink (StreamDesk.decrypt S d.identity source)

/-- The current cards of identities; `reload` passes over the cache. -/
def findUsers (S : CipherSuite) (identities : List String) (reload : Bool) :
    Action Site FoundCards :=
  inLookup (Lookup.findUsers S identities reload)

/-- The current card of an identity; `reload` passes over the cache. -/
def findUser (S : CipherSuite) (identity : String) (reload : Bool) : Action Site CardChain :=
  inLookup (Lookup.findUser S identity reload)

/-- The cached current cards of identities. -/
def findCachedUsers (S : CipherSuite) (identities : List String) : Action Site FoundCards :=
  inLookup (Lookup.findCachedUsers S identities)

/-- The cached current card of an identity, if there is one. -/
def findCachedUser (S : CipherSuite) (identity : String) : Action Site (Option CardChain) :=
  inLookup (Lookup.findCachedUser S identity)

/-- The current keys of identities. -/
def publicKeys (S : CipherSuite) (identities : List String) :
    Action Site (List (String × PublicKey)) :=
  inLookup (Lookup.publicKeys S identities)

/-- The cached current cards of any identities. -/
def searchCached (S : CipherSuite) (identities : List String) : Action Site (List CardChain) :=
  inLookup (Lookup.cached S identities)

/-- Brings the card cache up to date with the directory. -/
def update (S : CipherSuite) (d : Device) : Action Site (List String) :=
  inLookup (Lookup.update S d.listening)

/-- Where the private key is. -/
def backupState (d : Device) : Action Site BackupState := inBackup d.keyBackup.state

/-- Backs the private key up under a password. -/
def backUp (S : CipherSuite) (d : Device) (password : String) : Action Site Unit :=
  inBackup (d.keyBackup.backUp S password)

/-- Backs the private key up under a password and a name. -/
def backUpNamed (S : CipherSuite) (d : Device) (password keyName : String) : Action Site Unit :=
  inBackup (d.keyBackup.backUpNamed S password keyName)

/-- Gets the private key back. -/
def restore (S : CipherSuite) (d : Device) (password : String) : Action Site KeyPair :=
  inBackup (d.keyBackup.restore S password)

/-- Gets the private key with a name back. -/
def restoreNamed (S : CipherSuite) (d : Device) (password keyName : String) : Action Site KeyPair :=
  inBackup (d.keyBackup.restoreNamed S password keyName)

/-- Seals the backed up key for another password. -/
def changePassword (S : CipherSuite) (d : Device) (old new : String) : Action Site Unit :=
  inBackup (d.keyBackup.changePassword S old new)

/-- Deletes the backup that a password opens; without a password, all backups. -/
def resetBackup (S : CipherSuite) (d : Device) (password : Option String) : Action Site Unit :=
  inBackup (d.keyBackup.reset S password)

end Device

end EndToEnd
