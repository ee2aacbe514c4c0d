/-
  The octets of an envelope.

  Numbers have a fixed width and start with their least significant octet; a length is a number of
  eight octets; what may be missing starts with a 0 or a 1; blocks are written as they are. A
  signature is written as a string of hexadecimal digits, and read in either case. Octets after an
  envelope are passed over.
-/
import EndToEnd.Envelope.Basic

namespace EndToEnd.Envelope

/-- A length. -/
def encodeLength (n : Nat) : Octets := littleEndian 8 n

/-- Octets after their number. -/
def encodeOctets (o : Octets) : Octets := encodeLength o.length ++ o

/-- A signature: its digits after their number. -/
def encodeSignature (s : Signature) : Octets :=
  encodeOctets ((Hex.encode s.octets).map fun c => UInt8.ofNat c.toNat)

/-- A value that may be missing. -/
def encodeOption {α : Type} (encode : α → Octets) : Option α → Octets
  | none => [0]
  | some a => 1 :: encode a

/-- The octets of a slot. -/
def Slot.encode (s : Slot) : Octets := s.keyId.octets ++ s.nonce.octets ++ encodeOctets s.wrapped

/-- The octets of a header. They are locked in with the body. -/
def Header.encode (h : Header) : Octets :=
  h.version :: (littleEndian 4 h.mode.number ++ (h.ephemeral.octets ++
    (encodeLength h.slots.length ++ (h.slots.flatMap Slot.encode ++
      (encodeOption (fun id : KeyId => id.octets) h.signerId ++
        encodeOption encodeSignature h.signature)))))

/-- The octets of an envelope. -/
def encode (e : Envelope) : Octets :=
  e.header.encode ++ (e.nonce.octets ++ encodeOctets e.body)

/-- What is taken from the front of octets, and what follows it. -/
abbrev Take (α : Type) := Octets → Option (α × Octets)

/-- A block of `n` octets. -/
def takeBlock (n : Nat) : Take (Block n) := fun o =>
  (Block.ofOctets? n (o.take n)).map (·, o.drop n)

/-- A number of `k` octets. -/
def takeNumber (k : Nat) : Take Nat := fun o =>
  (takeBlock k o).map fun (b, rest) => (ofLittleEndian b.octets, rest)

/-- Octets after their number. -/
def takeOctets : Take Octets := fun o =>
  match takeNumber 8 o with
  | none => none
  | some (n, o) => (takeBlock n o).map fun (b, rest) => (b.octets, rest)

/-- A signature. -/
def takeSignature : Take Signature := fun o =>
  match takeOctets o with
  | none => none
  | some (digits, rest) =>
    match Hex.decode (digits.map fun b => Char.ofNat b.toNat) with
    | .error _ => none
    | .ok s => (Block.ofOctets? 64 s).map (·, rest)

/-- A value that may be missing. -/
def takeOption {α : Type} (take : Take α) : Take (Option α)
  | 0 :: rest => some (none, rest)
  | 1 :: rest => (take rest).map fun (a, rest) => (some a, rest)
  | _ => none

/-- A slot. -/
def takeSlot : Take Slot := fun o => do
  let (keyId, o) ← takeBlock 8 o
  let (nonce, o) ← takeBlock 12 o
  let (wrapped, o) ← takeOctets o
  some (⟨keyId, nonce, wrapped⟩, o)

/-- A number of slots. -/
def takeSlots : Nat → Take (List Slot)
  | 0, o => some ([], o)
  | n + 1, o =>
    match takeSlot o with
    | none => none
    | some (s, o) => (takeSlots n o).map fun (ss, rest) => (s :: ss, rest)

/-- A header. -/
def takeHeader : Take Header
  | [] => none
  | version :: o => do
    let (number, o) ← takeNumber 4 o
    let mode ← Mode.ofNumber? number
    let (ephemeral, o) ← takeBlock 32 o
    let (count, o) ← takeNumber 8 o
    let (slots, o) ← takeSlots count o
    let (signerId, o) ← takeOption (takeBlock 8) o
    let (signature, o) ← takeOption takeSignature o
    some (⟨version, mode, ephemeral, slots, signerId, signature⟩, o)

/-- An envelope. -/
def takeEnvelope : Take Envelope := fun o => do
  let (header, o) ← takeHeader o
  let (nonce, o) ← takeBlock 12 o
  let (body, o) ← takeOctets o
  some (⟨header, nonce, body⟩, o)

/-- The error for a format version that is not read. -/
def unsupportedVersion (v : UInt8) : CryptoError :=
  .invalidFormat s!"Unsupported envelope version {v.toNat}"

/-- The envelope at the front of octets. -/
def decode (o : Octets) : Except CryptoError Envelope :=
  match takeEnvelope o with
  | none => .error (.invalidFormat "Malformed envelope: not the octets of an envelope")
  | some (e, _) =>
    if e.header.version = currentVersion then .ok e else .error (unsupportedVersion e.header.version)

end EndToEnd.Envelope
