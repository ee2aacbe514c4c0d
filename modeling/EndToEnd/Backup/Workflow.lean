/-
  Backing up the private key of an identity under a password, and getting it back.

  The key is sealed for the key pair that the password derives, by that key pair itself. It opens
  with the right password only, whoever else writes to the store; and what was read is overwritten
  only if it is still what is there.
-/
import EndToEnd.Backup.Password
import EndToEnd.Backup.Store
import EndToEnd.KeyStore

namespace EndToEnd

/-- Where a private key is and where else it is kept. -/
inductive BackupState where
  | noLocalKey
  | localKeyOnly
  | localAndBackedUp
deriving DecidableEq

/-- The name of a state. -/
def BackupState.name : BackupState → String
  | noLocalKey => "NoLocalKey"
  | localKeyOnly => "LocalKeyOnly"
  | localAndBackedUp => "LocalAndBackedUp"

/-- What backing up works on: the private keys, the link to the store, and the time. -/
structure BackupDesk where
  vault : Vault
  link : BackupLink
  now : Timestamp

/-- Whose key is backed up, under which name unless another one is given, and how passwords become
keys. -/
structure KeyBackup where
  identity : String
  keyName : String
  derive : KeyDeriver

namespace KeyBackup

/-- An action on the private keys. -/
def inVault {α : Type} (x : Action Vault α) : Action BackupDesk α :=
  Action.on BackupDesk.vault (fun d vault => { d with vault }) x

/-- A call to the store. -/
def call {α : Type} (x : BackupStore.Call α) : Action BackupDesk α :=
  Action.on BackupDesk.link (fun d link => { d with link }) (BackupLink.call x)

/-- The notes on an entry that is made here. -/
def notes : List (String × String) := [("format", "ethree-backup-v1")]

/-- The entry with a name, if there is one. -/
def find (b : KeyBackup) (keyName : String) : Action BackupDesk (Option BackupEntry) := do
  let now := (← get).now
  Action.on BackupDesk.link (fun d link => { d with link }) (BackupLink.pull now b.identity keyName)

/-- The entry with a name. -/
def fetch (b : KeyBackup) (keyName : String) : Action BackupDesk BackupEntry := do
  match ← b.find keyName with
  | some e => pure e
  | none => throw .noBackupFound

/-- The key pair of a password. -/
def derived (b : KeyBackup) (password : String) : Action BackupDesk KeyPair :=
  Action.lift (b.derive b.identity password)

/-- Seals a private key for a derived key pair. -/
def lock (S : CipherSuite) (privateKey : Octets) (derived : KeyPair) : Action BackupDesk Octets :=
  inVault (Vault.sealing .crypto
    (Envelope.authEncrypt S privateKey derived [derived.publicKey S]))

/-- The private key in an entry. Whatever keeps it from opening counts as a wrong password. -/
def unlock (S : CipherSuite) (e : BackupEntry) (derived : KeyPair) : Action BackupDesk Octets :=
  Action.lift ((Envelope.authDecrypt S e.ciphertext derived (derived.publicKey S)).mapError
    fun _ => .wrongPassword)

/-- Where the private key is. -/
def state (b : KeyBackup) : Action BackupDesk BackupState := do
  if ← inVault (Vault.hasKey b.identity) then
    match ← b.find b.keyName with
    | some _ => pure .localAndBackedUp
    | none => pure .localKeyOnly
  else pure .noLocalKey

/-- Backs the private key up under a name. -/
def backUpNamed (S : CipherSuite) (b : KeyBackup) (password keyName : String) :
    Action BackupDesk Unit := do
  Action.lift (Message.requireText "password" password)
  Action.lift (Message.requireText "key_name" keyName)
  let key ← inVault (Vault.loadKey S b.identity)
  let derived ← b.derived password
  let ciphertext ← lock S key.privateOctets derived
  let entry := BackupEntry.new S (← get).now b.identity keyName ciphertext
  call (BackupStore.push { entry with notes })

/-- Backs the private key up. -/
def backUp (S : CipherSuite) (b : KeyBackup) (password : String) : Action BackupDesk Unit :=
  b.backUpNamed S password b.keyName

/-- Gets the private key with a name back. -/
def restoreNamed (S : CipherSuite) (b : KeyBackup) (password keyName : String) :
    Action BackupDesk KeyPair := do
  Action.lift (Message.requireText "password" password)
  Action.lift (Message.requireText "key_name" keyName)
  inVault (Vault.requireNoKey b.identity)
  let derived ← b.derived password
  let entry ← b.fetch keyName
  let privateKey ← unlock S entry derived
  let key ← Action.lift ((KeyPair.ofPrivateOctets privateKey).mapError .crypto)
  inVault (Vault.storeKey S b.identity key)
  pure key

/-- Gets the private key back. -/
def restore (S : CipherSuite) (b : KeyBackup) (password : String) : Action BackupDesk KeyPair :=
  b.restoreNamed S password b.keyName

/-- Seals the backed up key for another password. -/
def changePassword (S : CipherSuite) (b : KeyBackup) (old new : String) :
    Action BackupDesk Unit := do
  Action.lift (Message.requireText "old_password" old)
  Action.lift (Message.requireText "new_password" new)
  if old = new then throw .samePassword
  else
    let oldDerived ← b.derived old
    let entry ← b.fetch b.keyName
    let privateKey ← unlock S entry oldDerived
    let newDerived ← b.derived new
    let ciphertext ← lock S privateKey newDerived
    let now := (← get).now
    call (BackupStore.replace (entry.withCiphertext S now ciphertext) entry.hash)

/-- Deletes the backup that a password opens; without a password, all backups of the identity. -/
def reset (S : CipherSuite) (b : KeyBackup) : Option String → Action BackupDesk Unit
  | some password => do
    Action.lift (Message.requireText "password" password)
    let derived ← b.derived password
    let entry ← b.fetch b.keyName
    let _ ← unlock S entry derived
    let _ ← call (BackupStore.delete b.identity b.keyName)
    pure ()
  | none => do
    let _ ← call (BackupStore.deleteAll b.identity)
    pure ()

end KeyBackup

end EndToEnd
