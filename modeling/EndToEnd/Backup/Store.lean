/-
  The backup store, which keeps sealed private keys under an identity and a name.

  A new entry never replaces one that is there, and an entry is overwritten only by someone who knows
  the digest of what it holds. Clients reach the store over links, on which single calls may fail
  and between whose calls others may act.
-/
import EndToEnd.CipherSuite
import EndToEnd.Clock
import EndToEnd.Error
import EndToEnd.Action
import EndToEnd.Table
import EndToEnd.Text.Hex

namespace EndToEnd

/-- An entry of the backup store. -/
structure BackupEntry where
  identity : String
  keyName : String
  ciphertext : Octets
  /-- Notes on the entry, by name. -/
  notes : List (String × String)
  /-- The digest of the ciphertext. -/
  hash : String
  createdAt : Timestamp
  updatedAt : Timestamp
deriving DecidableEq

namespace BackupEntry

/-- What an entry is found by. -/
def key (e : BackupEntry) : String × String := (e.identity, e.keyName)

/-- The digest of a ciphertext. -/
def hashOf (S : CipherSuite) (ciphertext : Octets) : String := Hex.text (S.sha256 ciphertext).octets

/-- A new entry. -/
def new (S : CipherSuite) (now : Timestamp) (identity keyName : String) (ciphertext : Octets) :
    BackupEntry :=
  ⟨identity, keyName, ciphertext, [], hashOf S ciphertext, now, now⟩

/-- The entry with another ciphertext. -/
def withCiphertext (S : CipherSuite) (now : Timestamp) (ciphertext : Octets) (e : BackupEntry) :
    BackupEntry :=
  { e with ciphertext, hash := hashOf S ciphertext, updatedAt := now }

end BackupEntry

/-- The entries of the store, and whether it can be reached. -/
structure BackupStore where
  entries : Table BackupEntry.key
  available : Bool

namespace BackupStore

/-- A store without entries. -/
def empty : BackupStore := ⟨.empty, true⟩

/-- A call to the store. -/
abbrev Call := ExceptT TransportError (StateM BackupStore)

/-- Fails where the store cannot be reached. -/
def reach : Call Unit := fun s =>
  (if s.available then .ok () else .error (.unavailable "simulated outage"), s)

/-- Changes the entries, or refuses to. -/
def change (f : Table BackupEntry.key → Except TransportError (Table BackupEntry.key)) :
    Call Unit := fun s =>
  match f s.entries with
  | .error e => (.error e, s)
  | .ok entries => (.ok (), { s with entries })

/-- Adds an entry. -/
def push (e : BackupEntry) : Call Unit := do
  reach
  change fun t => if t.has e.key then .error .entryAlreadyExists else .ok (t.insert e)

/-- The entry of an identity with a name. -/
def pull (identity keyName : String) : Call (Option BackupEntry) := do
  reach
  fun s => (.ok (s.entries.find? (identity, keyName)), s)

/-- Overwrites the entry that holds the ciphertext with a digest. -/
def replace (e : BackupEntry) (previousHash : String) : Call Unit := do
  reach
  change fun t =>
    match t.find? e.key with
    | none => .error .entryNotFound
    | some current =>
      if current.hash ≠ previousHash then .error .hashMismatch else .ok (t.insert e)

/-- Deletes an entry and says whether it was there. -/
def delete (identity keyName : String) : Call Bool := do
  reach
  fun s => (.ok (s.entries.has (identity, keyName)),
    { s with entries := s.entries.erase (identity, keyName) })

/-- Deletes the entries of an identity and says how many there were. -/
def deleteAll (identity : String) : Call Nat := do
  reach
  fun s =>
    let kept := s.entries.keep fun e => e.identity ≠ identity
    (.ok (s.entries.rows.length - kept.rows.length), { s with entries := kept })

end BackupStore

/-- What others do to a store, given the time and the identity and name of an entry. -/
abbrev Interference := Timestamp → (identity keyName : String) → BackupStore → BackupStore

namespace Interference

/-- Somebody overwrites the entry, if it is there. -/
def overwrite (S : CipherSuite) (ciphertext : Octets) : Interference := fun now identity keyName s =>
  match s.entries.find? (identity, keyName) with
  | none => s
  | some e => { s with entries := s.entries.insert (e.withCiphertext S now ciphertext) }

/-- Somebody deletes the entry. -/
def delete : Interference := fun _ identity keyName s =>
  { s with entries := s.entries.erase (identity, keyName) }

/-- The store can no longer be reached. -/
def outage : Interference := fun _ _ _ s => { s with available := false }

end Interference

/-- A client's link to the store. -/
structure BackupLink where
  store : BackupStore
  /-- Which of the next calls fail before they arrive. -/
  faults : Schedule TransportError
  /-- What others do to the store right after the next entry is fetched. -/
  meanwhile : Option Interference

namespace BackupLink

/-- A link on which nothing happens but what the client does. -/
def quiet (store : BackupStore) : BackupLink := ⟨store, .clear, none⟩

/-- A call over the link. -/
def call {α : Type} (x : BackupStore.Call α) : Action BackupLink α := fun l =>
  match l.faults.next with
  | (some e, faults) => (.error (.ofTransport e), { l with faults })
  | (none, faults) =>
    let (r, store) := x l.store
    (r.mapError .ofTransport, { l with store, faults })

/-- Fetches an entry; what others do right after it is done once. -/
def pull (now : Timestamp) (identity keyName : String) :
    Action BackupLink (Option BackupEntry) := do
  let found ← call (BackupStore.pull identity keyName)
  modify fun l =>
    match l.meanwhile with
    | none => l
    | some act => { l with store := act now identity keyName l.store, meanwhile := none }
  pure found

end BackupLink

end EndToEnd
