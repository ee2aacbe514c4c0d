/-
  AES-256 in Galois/counter mode with nonces of 96 bits and tags of 128 bits (SP 800-38D).

  The body is the message combined with a key stream that depends on key, nonce and length alone,
  so that combining twice gives the message back; `decrypt_encrypt` says that what was encrypted is decrypted under
  the same key, nonce and associated octets.
-/
import EndToEnd.Aead.Aes

namespace EndToEnd.Gcm

/-- An element of the field of 2¹²⁸ elements; the first bit is the most significant of `hi`. -/
structure Element where
  (hi lo : UInt64)

/-- The product of `v` and the polynomial with the bits of `x` from bit `i` of it on, added to `z`. -/
def mulBits : Nat → (zhi zlo vhi vlo x : UInt64) → Element × Element
  | 0, zhi, zlo, vhi, vlo, _ => (⟨zhi, zlo⟩, ⟨vhi, vlo⟩)
  | n + 1, zhi, zlo, vhi, vlo, x =>
    let mask := (0 : UInt64) - (x >>> 63)
    let carry := (0 : UInt64) - (vlo &&& 1)
    mulBits n (zhi ^^^ (vhi &&& mask)) (zlo ^^^ (vlo &&& mask))
      ((vhi >>> 1) ^^^ (carry &&& 0xe100000000000000)) ((vlo >>> 1) ||| (vhi <<< 63)) (x <<< 1)

/-- Product in the field, modulo x¹²⁸ + x⁷ + x² + x + 1. -/
def Element.mul (x h : Element) : Element :=
  let (z, v) := mulBits 64 0 0 h.hi h.lo x.hi
  (mulBits 64 z.hi z.lo v.hi v.lo x.lo).1

/-- The octet at a position, zero past the end. -/
@[inline] def octetAt (m : ByteArray) (i : Nat) : UInt64 :=
  if h : i < m.size then m[i].toUInt64 else 0

/-- The big-endian word that starts at octet `i`, zeros past the end. -/
def wordAt (m : ByteArray) (i : Nat) : UInt64 :=
  (octetAt m i <<< 56) ||| (octetAt m (i + 1) <<< 48) ||| (octetAt m (i + 2) <<< 40) |||
    (octetAt m (i + 3) <<< 32) ||| (octetAt m (i + 4) <<< 24) ||| (octetAt m (i + 5) <<< 16) |||
    (octetAt m (i + 6) <<< 8) ||| octetAt m (i + 7)

/-- The polynomial hash extended by octets, the last block filled up with zeros. -/
def absorb (h : Element) (m : ByteArray) (y : Element) : Element :=
  (List.range ((m.size + 15) / 16)).foldl (fun y k =>
    Element.mul ⟨y.hi ^^^ wordAt m (16 * k), y.lo ^^^ wordAt m (16 * k + 8)⟩ h) y

/-- The polynomial hash of associated octets and a ciphertext. -/
def hash (h : Element) (associated cipher : Octets) : Element :=
  let y := absorb h cipher.toByteArray (absorb h associated.toByteArray ⟨0, 0⟩)
  Element.mul ⟨y.hi ^^^ UInt64.ofNat (8 * associated.length), y.lo ^^^ UInt64.ofNat (8 * cipher.length)⟩ h

/-- The counter block of a nonce. -/
def counterBlock (nonce : Block 12) (counter : UInt32) : Aes.State :=
  let word := fun i => UInt32.ofNat (ofBigEndian ((nonce.octets.drop (4 * i)).take 4))
  ⟨word 0, word 1, word 2, counter⟩

/-- At least `n` octets of key stream: the cipher on the counters from 2 on. -/
def keyStream (keys : Array UInt32) (nonce : Block 12) (n : Nat) : Octets :=
  let first := counterBlock nonce 2
  (List.range ((n + 15) / 16)).flatMap fun i =>
    (Aes.encrypt keys { first with w3 := first.w3 + UInt32.ofNat i }).octets

/-- Octets combined one by one with a key stream. -/
def combine (message stream : Octets) : Octets := List.zipWith (· ^^^ ·) message stream

/-- The tag of a ciphertext. -/
def authTag (keys : Array UInt32) (nonce : Block 12) (associated cipher : Octets) : Octets :=
  let zero := Aes.encrypt keys ⟨0, 0, 0, 0⟩
  let h : Element := ⟨(zero.w0.toUInt64 <<< 32) ||| zero.w1.toUInt64,
    (zero.w2.toUInt64 <<< 32) ||| zero.w3.toUInt64⟩
  let y := hash h associated cipher
  combine (bigEndian 8 y.hi.toNat ++ bigEndian 8 y.lo.toNat)
    (Aes.encrypt keys (counterBlock nonce 1)).octets

/-- The most octets that one message, or its associated octets, may have. -/
def maxLength : Nat := 2 ^ 36

/-- Octets of a tag. -/
def tagLength : Nat := 16

/-- The ciphertext of a message followed by its tag; a message or associated octets beyond the
limit are refused. -/
def encrypt (key : Block 32) (nonce : Block 12) (associated message : Octets) : Option Octets :=
  if maxLength < message.length ∨ maxLength < associated.length then none
  else
    let keys := Aes.expandKey key
    let cipher := combine message (keyStream keys nonce message.length)
    some (cipher ++ authTag keys nonce associated cipher)

/-- The message of a ciphertext whose tag is right. -/
def decrypt (key : Block 32) (nonce : Block 12) (associated sealed : Octets) : Option Octets :=
  if sealed.length < tagLength ∨ maxLength + tagLength < sealed.length ∨
      maxLength < associated.length then none
  else
    let keys := Aes.expandKey key
    let cipher := sealed.take (sealed.length - tagLength)
    if authTag keys nonce associated cipher = sealed.drop (sealed.length - tagLength) then
      some (combine cipher (keyStream keys nonce cipher.length))
    else none

theorem length_keyStream (keys : Array UInt32) (nonce : Block 12) (n : Nat) :
    n ≤ (keyStream keys nonce n).length := by
  have h : ∀ (l : List Nat) (f : Nat → Aes.State),
      (l.flatMap fun i => (f i).octets).length = 16 * l.length := by
    intro l f
    induction l with
    | nil => rfl
    | cons a l ih => simp [ih]; omega
  unfold keyStream
  rw [h, List.length_range]
  omega

theorem length_combine {m s : Octets} (h : m.length ≤ s.length) :
    (combine m s).length = m.length := by
  simp [combine]; omega

theorem combine_combine {m s : Octets} (h : m.length ≤ s.length) :
    combine (combine m s) s = m := by
  induction m generalizing s with
  | nil => simp [combine]
  | cons a m ih =>
    cases s with
    | nil => simp at h
    | cons b s =>
      have := ih (s := s) (by simpa using h)
      simp only [combine, List.zipWith_cons_cons] at this ⊢
      rw [this, UInt8.xor_assoc, UInt8.xor_self, UInt8.xor_zero]

@[simp] theorem length_authTag (keys : Array UInt32) (nonce : Block 12) (a c : Octets) :
    (authTag keys nonce a c).length = tagLength := by
  simp [authTag, combine, tagLength]

/-- What was encrypted is decrypted, and gives back the message. -/
theorem decrypt_encrypt {key : Block 32} {nonce : Block 12} {associated message sealed : Octets}
    (h : encrypt key nonce associated message = some sealed) :
    decrypt key nonce associated sealed = some message := by
  unfold encrypt at h
  split at h
  · cases h
  · rename_i hfit
    simp only [Option.some.injEq] at h
    subst h
    have hc : (combine message (keyStream (Aes.expandKey key) nonce message.length)).length
        = message.length := length_combine (length_keyStream ..)
    unfold decrypt
    simp only [not_or, Nat.not_lt] at hfit
    simp [hc]
    exact ⟨hfit, combine_combine (length_keyStream ..)⟩

end EndToEnd.Gcm
