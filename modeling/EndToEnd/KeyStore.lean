/-
  The key store: named slots that hold private keys, sealed where the store has a key of its own.

  A sealed slot holds a nonce and the locked value; the name of the slot is locked in with it, so that
  a value does not open in another slot. Each identity has its private key in a slot of its own.
-/
import EndToEnd.Action
import EndToEnd.Envelope.Seal
import EndToEnd.Table

namespace EndToEnd

/-- A slot and what is stored in it. -/
structure KeySlot where
  name : String
  stored : Octets
deriving DecidableEq

/-- The slots of a store, and the key that they are sealed with, if they are. -/
structure KeyStore where
  slots : Table KeySlot.name
  sealing : Option (Block 32)

/-- A store without slots. -/
def KeyStore.empty (sealing : Option (Block 32)) : KeyStore := ⟨.empty, sealing⟩

/-- A key store together with the random octets that its user draws from. -/
structure Vault where
  keys : KeyStore
  tape : Tape

namespace Vault

/-- Draws random octets. -/
def draw {α : Type} (x : Draw α) : Action Vault α := fun v =>
  let (a, tape) := x v.tape
  (.ok a, { v with tape })

/-- Seals something; the error says what a failure means here. -/
def sealing {α : Type} (onError : CryptoError → Error) (x : Envelope.Sealing α) :
    Action Vault α := fun v =>
  let (r, tape) := x v.tape
  (r.mapError onError, { v with tape })

/-- What is written into a slot to store a value. -/
def storedForm (S : CipherSuite) (slot : String) (value : Octets) (key : Option (Block 32)) :
    Action Vault Octets :=
  match key with
  | none => pure value
  | some key => do
    let (nonce, sealed) ←
      sealing (fun e => .storageWrite s!"Failed to seal slot {slot}: {e.message}")
        (Envelope.lockFresh S key value (Utf8.encode slot))
    pure (nonce.octets ++ sealed)

/-- The value of what is stored in a slot. -/
def valueOf (S : CipherSuite) (slot : String) (stored : Octets) :
    Option (Block 32) → Except Error Octets
  | none => .ok stored
  | some key =>
    match Block.ofOctets? 12 (stored.take 12) with
    | none => .error (.storageRead "Stored data too short")
    | some nonce =>
      (Envelope.unlock S key nonce (stored.drop 12) (Utf8.encode slot)).mapError fun e =>
        .storageCorrupted s!"Failed to open slot {slot}: {e.message}"

/-- Stores a value in a slot, in place of what it held. -/
def store (S : CipherSuite) (slot : String) (value : Octets) : Action Vault Unit := do
  let stored ← storedForm S slot value (← get).keys.sealing
  modify fun v => { v with keys.slots := v.keys.slots.insert ⟨slot, stored⟩ }

/-- The value in a slot. -/
def load (S : CipherSuite) (slot : String) : Action Vault (Option Octets) := fun v =>
  match v.keys.slots.find? slot with
  | none => (.ok none, v)
  | some s => ((valueOf S slot s.stored v.keys.sealing).map some, v)

/-- Empties a slot and says whether it held a value. -/
def delete (slot : String) : Action Vault Bool := fun v =>
  (.ok (v.keys.slots.has slot), { v with keys.slots := v.keys.slots.erase slot })

/-- Whether a slot holds a value. -/
def holds (slot : String) : Action Vault Bool := fun v => (.ok (v.keys.slots.has slot), v)

/-- The slot of an identity's private key. -/
def keySlot (identity : String) : String := s!"ethree.{identity}.private_key"

/-- Whether an identity has a private key here. -/
def hasKey (identity : String) : Action Vault Bool := holds (keySlot identity)

/-- Fails where an identity has a private key here. -/
def requireNoKey (identity : String) : Action Vault Unit := do
  if ← hasKey identity then throw .privateKeyExists

/-- Stores the private key of an identity that has none. -/
def storeKey (S : CipherSuite) (identity : String) (key : KeyPair) : Action Vault Unit := do
  requireNoKey identity
  store S (keySlot identity) key.privateOctets

/-- The private key of an identity. -/
def loadKey (S : CipherSuite) (identity : String) : Action Vault KeyPair := do
  match ← load S (keySlot identity) with
  | none => throw .missingPrivateKey
  | some value =>
    Action.lift ((KeyPair.ofPrivateOctets value).mapError fun e =>
      .storageCorrupted s!"Stored private key is unreadable: {e.message}")

/-- Deletes the private key of an identity and says whether there was one. -/
def deleteKey (identity : String) : Action Vault Bool := delete (keySlot identity)

end Vault

end EndToEnd
