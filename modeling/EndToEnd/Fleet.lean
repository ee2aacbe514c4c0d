/-
  A fleet: devices of any identities that share one directory and one backup store.

  Each device has a card cache of its own; key stores may be shared. Devices act one at a time.
-/
import EndToEnd.Device

namespace EndToEnd

/-- A key store with a name. -/
structure NamedStore where
  name : String
  keys : KeyStore

/-- A device in a fleet, with its card cache and the name of the key store that it uses. -/
structure Member where
  name : String
  device : Device
  cache : CardCache
  store : String

/-- Devices and what they share. -/
structure Fleet where
  directory : DirectoryLink
  backups : BackupLink
  stores : Table NamedStore.name
  members : Table Member.name
  tape : Tape
  now : Timestamp

namespace Fleet

/-- A fleet without devices. -/
def empty (tape : Tape) (now : Timestamp) : Fleet :=
  ⟨.reliable .empty, .quiet .empty, .empty, .empty, tape, now⟩

/-- The key store with a name; one that was not used yet is empty and does not seal. -/
def keysOf (f : Fleet) (name : String) : KeyStore :=
  ((f.stores.find? name).map (·.keys)).getD (KeyStore.empty none)

/-- What a device works on. -/
def site (f : Fleet) (m : Member) : Site where
  vault := ⟨f.keysOf m.store, f.tape⟩
  cache := m.cache
  directory := f.directory
  backups := f.backups
  now := f.now
  reported := []

/-- The fleet after a device has worked. -/
def returned (f : Fleet) (m : Member) (s : Site) : Fleet :=
  { f with
    directory := s.directory
    backups := s.backups
    stores := f.stores.insert ⟨m.store, s.vault.keys⟩
    members := f.members.insert { m with cache := s.cache }
    tape := s.vault.tape }

/-- Adds a device. -/
def join (m : Member) (f : Fleet) : Fleet := { f with members := f.members.insert m }

/-- Lets a device act, and gives with its answer the identities whose keys it reported as changed. -/
def perform {α : Type} (f : Fleet) (m : Member) (x : Device → Action Site α) :
    (Except Error α × List String) × Fleet :=
  let (r, s) := x m.device (f.site m)
  ((r, s.reported), f.returned m s)

end Fleet

end EndToEnd
