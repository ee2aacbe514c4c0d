/-
  The settings of a device, their JSON form, and what makes them usable.

  Every setting but the identity has a default, so that a text may leave it out.
-/
import EndToEnd.CipherSuite
import EndToEnd.Error
import EndToEnd.Json.Record
import EndToEnd.Text.Blank

namespace EndToEnd

/-- What to do when an identity has several current cards. -/
inductive DuplicatePolicy where
  /-- Fail. -/
  | reject
  /-- Take the card that was created last. -/
  | preferNewest
deriving DecidableEq, Inhabited

namespace DuplicatePolicy

/-- The written name of a policy. -/
def name : DuplicatePolicy → String
  | reject => "reject"
  | preferNewest => "prefer_newest"

/-- The policy with a written name. -/
def ofName? (s : String) : Option DuplicatePolicy :=
  if s = "reject" then some .reject
  else if s = "prefer_newest" then some .preferNewest
  else none

/-- A policy is its name, or a record with nothing but that name, set to null. -/
def ofJson? : Json → Option DuplicatePolicy
  | .text s => ofName? s
  | .record [(some s, .null)] => ofName? s
  | _ => none

end DuplicatePolicy

namespace KdfCosts

/-- The costs that a device uses unless it is told others. -/
def default : KdfCosts := ⟨19456, 2, 1⟩

/-- The 32-bit number that a value is. -/
def word? (v : Json) : Option UInt32 := (v.natBelow? (2 ^ 32)).map UInt32.ofNat

/-- The JSON form of costs. -/
def toJson (c : KdfCosts) : Json :=
  .record [(some "memory_kib", .int c.memoryKib.toNat), (some "iterations", .int c.iterations.toNat),
    (some "parallelism", .int c.parallelism.toNat)]

/-- Costs from their JSON form; what is left out has its default. -/
def ofJson? (v : Json) : Option KdfCosts :=
  match v.fields? ["memory_kib", "iterations", "parallelism"] with
  | some [m, i, p] => do
    let m ← Json.orDefault m word? default.memoryKib
    let i ← Json.orDefault i word? default.iterations
    let p ← Json.orDefault p word? default.parallelism
    some ⟨m, i, p⟩
  | _ => none

end KdfCosts

/-- A span of time: whole seconds, and nanoseconds below a thousand million. -/
structure Span where
  seconds : UInt64
  nanoseconds : UInt32
deriving DecidableEq

namespace Span

/-- The milliseconds of a span, rounded down. -/
def milliseconds (d : Span) : Nat := d.seconds.toNat * 1000 + d.nanoseconds.toNat / 1000000

/-- The nanoseconds of a span. -/
def total (d : Span) : Nat := d.seconds.toNat * 1000000000 + d.nanoseconds.toNat

/-- The span of a number of milliseconds. -/
def ofMilliseconds (ms : UInt64) : Span := ⟨ms / 1000, (ms % 1000 * 1000000).toUInt32⟩

end Span

/-- The settings of a device. -/
structure Settings where
  identity : String
  /-- Name of the backup entry, if it is not the identity. -/
  keyName : Option String
  /-- Wait between stretching a password and the call to the backup store that follows. -/
  throttleCooldownMs : UInt64
  duplicateCardPolicy : DuplicatePolicy
  /-- Where the card cache is kept, if it is to outlive the device. -/
  cardCachePath : Option String
  kdf : KdfCosts
deriving DecidableEq, Inhabited

namespace Settings

/-- The default settings for an identity. -/
def new (identity : String) : Settings where
  identity := identity
  keyName := none
  throttleCooldownMs := 2000
  duplicateCardPolicy := .reject
  cardCachePath := none
  kdf := KdfCosts.default

/-- Settings that hold nothing but defaults. -/
def default : Settings := new ""

/-- The first thing that makes settings unusable. -/
def validate (s : Settings) : Except Error Unit :=
  if Text.isBlank s.identity then .error (.emptyArgument "identity")
  else if s.keyName.any Text.isBlank then .error (.emptyArgument "key_name")
  else if s.kdf.iterations = 0 ∨ s.kdf.parallelism = 0 then
    .error (.invalidArgument "KDF iterations and parallelism must be positive")
  else .ok ()

/-- The name under which the private key is backed up. -/
def backupKeyName (s : Settings) : String := s.keyName.getD s.identity

/-- The wait before calls to the backup store. -/
def throttleCooldown (s : Settings) : Span := Span.ofMilliseconds s.throttleCooldownMs

/-- The settings with another wait, in milliseconds modulo 2⁶⁴. -/
def withThrottleCooldown (s : Settings) (d : Span) : Settings :=
  { s with throttleCooldownMs := UInt64.ofNat d.milliseconds }

/-- The settings with another policy for duplicate cards. -/
def withDuplicateCardPolicy (s : Settings) (p : DuplicatePolicy) : Settings :=
  { s with duplicateCardPolicy := p }

/-- The settings with other costs of stretching a password. -/
def withKdf (s : Settings) (c : KdfCosts) : Settings := { s with kdf := c }

/-- A text, or null. -/
def optionalText (s : Option String) : Json :=
  match s with
  | none => .null
  | some s => .text s

/-- The names of the fields, in order. -/
def fieldNames : List String :=
  ["identity", "key_name", "throttle_cooldown_ms", "duplicate_card_policy", "card_cache_path", "kdf"]

/-- The JSON form of settings. -/
def toJson (s : Settings) : Json :=
  .record [(some "identity", .text s.identity), (some "key_name", optionalText s.keyName),
    (some "throttle_cooldown_ms", .int s.throttleCooldownMs.toNat),
    (some "duplicate_card_policy", .text s.duplicateCardPolicy.name),
    (some "card_cache_path", optionalText s.cardCachePath), (some "kdf", s.kdf.toJson)]

/-- Settings from their JSON form; what is left out has its default. -/
def ofJson? (v : Json) : Option Settings :=
  match v.fields? fieldNames with
  | some [identity, keyName, cooldown, policy, path, kdf] => do
    let identity ← Json.orDefault identity Json.text? default.identity
    let keyName ← Json.orDefault keyName Json.optionalText? default.keyName
    let cooldown ← Json.orDefault cooldown (fun v => (v.natBelow? (2 ^ 64)).map UInt64.ofNat)
      default.throttleCooldownMs
    let policy ← Json.orDefault policy DuplicatePolicy.ofJson? default.duplicateCardPolicy
    let path ← Json.orDefault path Json.optionalText? default.cardCachePath
    let kdf ← Json.orDefault kdf KdfCosts.ofJson? default.kdf
    some ⟨identity, keyName, cooldown, policy, path, kdf⟩
  | _ => none

/-- Usable settings from a JSON text. -/
def ofJsonText (text : String) : Except Error Settings :=
  match (Json.ofText? text).bind ofJson? with
  | none => .error (.deserialization "Invalid parameters: not a record of settings")
  | some s =>
    match s.validate with
    | .ok () => .ok s
    | .error e => .error e

end Settings

end EndToEnd
