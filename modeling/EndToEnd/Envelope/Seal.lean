/-
  Sealing data in envelopes and opening them.

  A content key is drawn for each envelope and locked for each recipient under a key that both sides
  can agree on. In the authenticated mode the signature covers the header too and is locked in with
  the data; in the older mode the data is signed first and the signature stays in the open.
-/
import EndToEnd.Envelope.Codec

namespace EndToEnd.Envelope

/-- A computation that draws random octets and may fail. -/
abbrev Sealing := ExceptT CryptoError Draw

/-- What wrap keys are derived for. -/
def wrapPurpose : Octets := Utf8.encode "ethree-recipient-wrap-v1"

/-- The key that locks the content key for one recipient, from what both sides agree on. -/
def wrapKey (S : CipherSuite) (shared ephemeral : Block 32) (keyId : KeyId) : Block 32 :=
  S.expand (ephemeral.octets ++ keyId.octets) shared.octets wrapPurpose

/-- Locks a message under a key and a fresh nonce. -/
def lockFresh (S : CipherSuite) (key : Block 32) (message associated : Octets) :
    Sealing (Block 12 × Octets) := do
  let nonce ← Draw.block 12
  match S.lock key nonce associated message with
  | some sealed => return (nonce, sealed)
  | none => throw (.encryption "Encryption failed: aead::Error")

/-- The message that was locked. -/
def unlock (S : CipherSuite) (key : Block 32) (nonce : Block 12) (sealed associated : Octets) :
    Except CryptoError Octets :=
  match S.unlock key nonce associated sealed with
  | some message => .ok message
  | none => .error (.decryption "authentication tag mismatch")

/-- The distinct recipients, in order of first occurrence: one for each key id. `seen` holds the ids
met so far. -/
def distinctFrom (S : CipherSuite) (seen : List KeyId) : List PublicKey → List (KeyId × PublicKey)
  | [] => []
  | k :: ks =>
    let id := k.keyId S
    if id ∈ seen then distinctFrom S seen ks else (id, k) :: distinctFrom S (id :: seen) ks

/-- The distinct recipients, in order of first occurrence. -/
def distinct (S : CipherSuite) (recipients : List PublicKey) : List (KeyId × PublicKey) :=
  distinctFrom S [] recipients

/-- The slot of one recipient, made with a one-time secret. -/
def wrapFor (S : CipherSuite) (content secret : Block 32) (recipient : KeyId × PublicKey) :
    Sealing Slot := do
  let (id, key) := recipient
  let shared := S.agree secret key.encryption
  let (nonce, wrapped) ← lockFresh S (wrapKey S shared (S.agreePublic secret) id) content.octets id.octets
  return ⟨id, nonce, wrapped⟩

/-- The slots of recipients. -/
def wrapAll (S : CipherSuite) (content secret : Block 32) :
    List (KeyId × PublicKey) → Sealing (List Slot)
  | [] => return []
  | r :: rs => do
    let slot ← wrapFor S content secret r
    let slots ← wrapAll S content secret rs
    return slot :: slots

/-- The content key that octets are. -/
def contentKeyOfOctets (o : Octets) : Except CryptoError (Block 32) :=
  match Block.ofOctets? 32 o with
  | some key => .ok key
  | none => .error (.invalidKey "Content key must be 32 bytes")

/-- The content key of a header, for a recipient. -/
def Header.contentKey (S : CipherSuite) (h : Header) (recipient : KeyPair) :
    Except CryptoError (Block 32) :=
  let id := recipient.keyId S
  match h.slots.find? (fun s => s.keyId = id) with
  | none => .error .recipientNotFound
  | some slot =>
    let key := wrapKey S (S.agree recipient.encryption h.ephemeral) h.ephemeral id
    match unlock S key slot.nonce slot.wrapped id.octets with
    | .error e => .error e
    | .ok raw => contentKeyOfOctets raw

/-- A header without signature. -/
def Header.unsigned (mode : Mode) (ephemeral : Block 32) (slots : List Slot) : Header :=
  ⟨currentVersion, mode, ephemeral, slots, none, none⟩

/-- Draws a content key and locks it for the recipients. -/
def prepare (S : CipherSuite) (mode : Mode) (recipients : List PublicKey) :
    Sealing (Block 32 × Header) := do
  let content ← Draw.block 32
  let secret ← Draw.block 32
  let slots ← wrapAll S content secret (distinct S recipients)
  return (content, Header.unsigned mode (S.agreePublic secret) slots)

/-- The envelope of a body. -/
def enclose (S : CipherSuite) (header : Header) (content : Block 32) (body : Octets) :
    Sealing Octets := do
  let (nonce, sealed) ← lockFresh S content body header.encode
  return encode ⟨header, nonce, sealed⟩

/-- The body of an envelope of the expected mode. -/
def disclose (S : CipherSuite) (e : Envelope) (expected : Mode) (recipient : KeyPair) :
    Except CryptoError Octets :=
  if e.header.mode ≠ expected then
    .error (.invalidFormat s!"Expected {expected.name} envelope, found {e.header.mode.name}")
  else
    match e.header.contentKey S recipient with
    | .error err => .error err
    | .ok content => unlock S content e.nonce e.body e.header.encode

/-- What is signed in an authenticated envelope: the digest of header and data. -/
def authenticatedDigest (S : CipherSuite) (header : Header) (data : Octets) : Octets :=
  (S.sha512 (header.encode ++ data)).octets

/-- The body of an authenticated envelope: the data and its signature. -/
def encodeBody (data : Octets) (signature : Signature) : Octets :=
  encodeOctets data ++ encodeSignature signature

/-- The data and the signature of a body. -/
def decodeBody (body : Octets) : Except CryptoError (Octets × Signature) :=
  match takeOctets body with
  | none => .error (.invalidFormat "Malformed body: no data")
  | some (data, rest) =>
    match takeSignature rest with
    | none => .error (.invalidFormat "Malformed body: no signature")
    | some (signature, _) => .ok (data, signature)

/-- Seals data for recipients, signed together with the header. -/
def authEncrypt (S : CipherSuite) (data : Octets) (signer : KeyPair) (recipients : List PublicKey) :
    Sealing Octets := do
  if recipients.isEmpty then throw (.encryption "No recipients")
  else
    let (content, header) ← prepare S .authenticated recipients
    let signature := signer.sign S (authenticatedDigest S header data)
    enclose S header content (encodeBody data signature)

/-- Opens what `authEncrypt` sealed and checks that it is the signer's. -/
def authDecrypt (S : CipherSuite) (sealed : Octets) (recipient : KeyPair) (signer : PublicKey) :
    Except CryptoError Octets := do
  let e ← decode sealed
  let body ← disclose S e .authenticated recipient
  let (data, signature) ← decodeBody body
  signer.verify S (authenticatedDigest S e.header data) signature
  return data

/-- Signs data and seals it for recipients, the signature in the open. -/
def signThenEncrypt (S : CipherSuite) (data : Octets) (signer : KeyPair)
    (recipients : List PublicKey) : Sealing Octets := do
  if recipients.isEmpty then throw (.encryption "No recipients")
  else
    let (content, header) ← prepare S .signThenEncrypt recipients
    let signed : Header :=
      { header with signerId := some (signer.keyId S), signature := some (signer.sign S data) }
    enclose S signed content data

/-- Opens what `signThenEncrypt` sealed and checks it with the verifier that has the signer's id. -/
def decryptThenVerify (S : CipherSuite) (sealed : Octets) (recipient : KeyPair)
    (verifiers : List PublicKey) : Except CryptoError Octets := do
  let e ← decode sealed
  let data ← disclose S e .signThenEncrypt recipient
  match e.header.signerId, e.header.signature with
  | some id, some signature =>
    match verifiers.find? (fun k => k.keyId S = id) with
    | none => throw .signatureNotValid
    | some verifier =>
      verifier.verify S data signature
      return data
  | _, _ => throw .signatureNotValid

end EndToEnd.Envelope
