/-
  Card caches that are kept: their rows, with a record of the versions of the form they are in.

  The version of a file is the least one on record, read as a number of 32 bits. A file whose version
  cannot be read that way is taken for a new one, and the current version is put on record.
-/
import EndToEnd.Card.Cache
import EndToEnd.Version

namespace EndToEnd

/-- A kept card cache. -/
structure CardFile where
  /-- The versions on record. -/
  versions : List Int
  rows : CardRows

namespace CardFile

/-- A new file. -/
def new : CardFile := ⟨[currentVersion], .empty⟩

/-- The version of a file, if it can be read. -/
def version? (f : CardFile) : Option Int :=
  f.versions.min?.filter fun v => decide (-2 ^ 31 ≤ v ∧ v < 2 ^ 31)

/-- Puts the current version on record. No version is on record twice. -/
def record (f : CardFile) : Except Error CardFile :=
  if currentVersion ∈ f.versions then
    .error (.database
      "Failed to set schema version: UNIQUE constraint failed: schema_version.version")
  else .ok { f with versions := currentVersion :: f.versions }

/-- A file as it is once it has been opened. One of a later version is not opened. -/
def load (f : CardFile) : Except Error CardFile :=
  match f.version? with
  | none => f.record
  | some v =>
    if currentVersion < v then
      .error (.storageCorrupted
        s!"Card cache schema version {v} is newer than supported {currentVersion}")
    else .ok f

/-- The error for a file in a folder that is not there. -/
def unreachable : Error := .database "Failed to open database: no such folder"

end CardFile

end EndToEnd
