/-
  Envelopes: the form of everything that is sealed for a set of keys.

  A header stays in the open: how the sender is vouched for, the sender's one-time public value, and
  for each recipient a slot with the content key locked for it. Behind it come a nonce and the body,
  locked under the content key together with the header.
-/
import EndToEnd.Key
import EndToEnd.Version

namespace EndToEnd

namespace Envelope

/-- How an envelope vouches for its sender. -/
inductive Mode where
  /-- A signature over header and data, locked in with the data. -/
  | authenticated
  /-- A signature over the data, in the open header. -/
  | signThenEncrypt
  /-- None; the body comes in chunks. -/
  | stream
deriving DecidableEq, Inhabited

namespace Mode

/-- The name of a mode. -/
def name : Mode → String
  | authenticated => "Authenticated"
  | signThenEncrypt => "SignThenEncrypt"
  | stream => "Stream"

/-- The number of a mode. -/
def number : Mode → Nat
  | authenticated => 0
  | signThenEncrypt => 1
  | stream => 2

/-- The mode with a number. -/
def ofNumber? : Nat → Option Mode
  | 0 => some authenticated
  | 1 => some signThenEncrypt
  | 2 => some stream
  | _ => none

@[simp] theorem ofNumber?_number (m : Mode) : ofNumber? m.number = some m := by cases m <;> rfl

end Mode

/-- The content key, locked for one recipient. -/
structure Slot where
  /-- Whose slot it is. -/
  keyId : KeyId
  nonce : Block 12
  wrapped : Octets
deriving DecidableEq

/-- The part of an envelope that stays in the open. -/
structure Header where
  version : UInt8
  mode : Mode
  /-- The public value that all slots were made with. -/
  ephemeral : Block 32
  slots : List Slot
  /-- Who signed, where the signature stays in the open. -/
  signerId : Option KeyId
  signature : Option Signature
deriving DecidableEq

/-- The keys that a header names as recipients, in order. -/
def Header.recipientIds (h : Header) : List KeyId := h.slots.map (·.keyId)

end Envelope

/-- A sealed message. -/
structure Envelope where
  header : Envelope.Header
  nonce : Block 12
  body : Octets
deriving DecidableEq

end EndToEnd
