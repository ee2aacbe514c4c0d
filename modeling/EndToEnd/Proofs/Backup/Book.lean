/-
  What backing up private keys means, without any cryptography.

  A book has, for an identity and a name, the password and the private key that were backed up, and for
  a key store and an identity the private key that is there. Operations on it are those of a client of
  the backup store and of a key store: a backup is entered where there is none, and is read and changed
  by those who say the password that it was entered with.
-/
import EndToEnd.Action
import EndToEnd.Key
import EndToEnd.Message.Text

namespace EndToEnd

/-- The assignment with another value in one place. -/
def assign {κ α : Type} [DecidableEq κ] (f : κ → α) (k : κ) (a : α) : κ → α :=
  fun j => if j = k then a else f j

section Assign

variable {κ α : Type} [DecidableEq κ] {f : κ → α} {j k : κ} {a : α}

@[simp] theorem assign_self : assign f k a k = a := if_pos rfl

theorem assign_of_ne (h : j ≠ k) : assign f k a j = f j := if_neg h

end Assign

/-- Whose private key a client cares for, under which name it is backed up unless another one is given,
and in which key store it is. -/
structure BackupClient where
  identity : String
  keyName : String
  store : String

/-- What a client does. -/
inductive BackupOperation where
  | backUp (password keyName : String)
  | restore (password keyName : String)
  | changePassword (old new : String)
  | reset (password : Option String)
  | storeKey (key : KeyPair)
  | deleteKey

/-- The passwords that are said. -/
def BackupOperation.passwords : BackupOperation → List String
  | backUp password _ => [password]
  | restore password _ => [password]
  | changePassword old new => [old, new]
  | reset password => password.toList
  | storeKey _ => []
  | deleteKey => []

/-- What an operation answers. -/
inductive BackupAnswer where
  | done
  /-- The private key that was restored. -/
  | key (key : KeyPair)
  /-- Whether there was a private key to delete. -/
  | deleted (wasThere : Bool)
deriving DecidableEq

/-- The passwords and private keys that were backed up, by identity and name, and the private keys that
are in key stores, by store and identity. -/
structure BackupBook where
  entries : String × String → Option (String × KeyPair)
  keys : String × String → Option KeyPair

namespace BackupBook

/-- A book without entries and keys. -/
def empty : BackupBook := ⟨fun _ => none, fun _ => none⟩

/-- The book with another entry in a place. -/
def enter (place : String × String) (binding : Option (String × KeyPair)) (m : BackupBook) :
    BackupBook :=
  { m with entries := assign m.entries place binding }

/-- The book with another key in a store. -/
def put (place : String × String) (key? : Option KeyPair) (m : BackupBook) : BackupBook :=
  { m with keys := assign m.keys place key? }

theorem keys_put_self (m : BackupBook) (place : String × String) (key? : Option KeyPair) :
    (m.put place key?).keys place = key? := assign_self

theorem keys_put_of_ne {place other : String × String} (h : other ≠ place) (m : BackupBook)
    (key? : Option KeyPair) : (m.put place key?).keys other = m.keys other := assign_of_ne h

variable (c : BackupClient)

/-- The private key of an entry, for those who say its password. -/
def opened (password keyName : String) : Action BackupBook KeyPair := do
  match (← get).entries (c.identity, keyName) with
  | none => throw .noBackupFound
  | some (p, key) => if p = password then pure key else throw .wrongPassword

/-- Enters the private key under a name that is not taken. -/
def backUp (password keyName : String) : Action BackupBook Unit := do
  Action.lift (Message.requireText "password" password)
  Action.lift (Message.requireText "key_name" keyName)
  match (← get).keys (c.store, c.identity) with
  | none => throw .missingPrivateKey
  | some key =>
    match (← get).entries (c.identity, keyName) with
    | some _ => throw .backupAlreadyExists
    | none => modify (enter (c.identity, keyName) (some (password, key)))

/-- Puts the private key of an entry where there is none. -/
def restore (password keyName : String) : Action BackupBook KeyPair := do
  Action.lift (Message.requireText "password" password)
  Action.lift (Message.requireText "key_name" keyName)
  match (← get).keys (c.store, c.identity) with
  | some _ => throw .privateKeyExists
  | none =>
    let key ← opened c password keyName
    modify (put (c.store, c.identity) (some key))
    pure key

/-- Enters the private key again, with another password. -/
def changePassword (old new : String) : Action BackupBook Unit := do
  Action.lift (Message.requireText "old_password" old)
  Action.lift (Message.requireText "new_password" new)
  if old = new then throw .samePassword
  else
    let key ← opened c old c.keyName
    modify (enter (c.identity, c.keyName) (some (new, key)))

/-- Strikes out an entry by its password; without a password, all entries of the identity. -/
def reset : Option String → Action BackupBook Unit
  | some password => do
    Action.lift (Message.requireText "password" password)
    let _ ← opened c password c.keyName
    modify (enter (c.identity, c.keyName) none)
  | none => modify fun m =>
    { m with entries := fun place => if place.1 = c.identity then none else m.entries place }

/-- Puts a private key where there is none. -/
def storeKey (key : KeyPair) : Action BackupBook Unit := do
  match (← get).keys (c.store, c.identity) with
  | some _ => throw .privateKeyExists
  | none => modify (put (c.store, c.identity) (some key))

/-- Takes the private key away and says whether there was one. -/
def deleteKey : Action BackupBook Bool := do
  let m ← get
  modify (put (c.store, c.identity) none)
  pure (m.keys (c.store, c.identity)).isSome

/-- Does what a client does. -/
def perform : BackupOperation → Action BackupBook BackupAnswer
  | .backUp password keyName => do
    backUp c password keyName
    pure .done
  | .restore password keyName => .key <$> restore c password keyName
  | .changePassword old new => do
    changePassword c old new
    pure .done
  | .reset password => do
    reset c password
    pure .done
  | .storeKey key => do
    storeKey c key
    pure .done
  | .deleteKey => .deleted <$> deleteKey c

end BackupBook

end EndToEnd
