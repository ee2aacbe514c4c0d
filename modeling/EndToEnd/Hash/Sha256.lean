/-
  SHA-256 (FIPS 180-4), HMAC over it, and the extract-and-expand key derivation built on HMAC.

  A message is padded to whole blocks of 64 octets; each block is folded into eight 32-bit words of
  state by 64 rounds.
-/
import EndToEnd.Octets

namespace EndToEnd.Sha256

/-- The first 32 fraction bits of the cube roots of the first 64 primes. -/
def roundConstants : Array UInt32 := #[
  0x428a2f98, 0x71374491, 0xb5c0fbcf, 0xe9b5dba5, 0x3956c25b, 0x59f111f1, 0x923f82a4, 0xab1c5ed5,
  0xd807aa98, 0x12835b01, 0x243185be, 0x550c7dc3, 0x72be5d74, 0x80deb1fe, 0x9bdc06a7, 0xc19bf174,
  0xe49b69c1, 0xefbe4786, 0x0fc19dc6, 0x240ca1cc, 0x2de92c6f, 0x4a7484aa, 0x5cb0a9dc, 0x76f988da,
  0x983e5152, 0xa831c66d, 0xb00327c8, 0xbf597fc7, 0xc6e00bf3, 0xd5a79147, 0x06ca6351, 0x14292967,
  0x27b70a85, 0x2e1b2138, 0x4d2c6dfc, 0x53380d13, 0x650a7354, 0x766a0abb, 0x81c2c92e, 0x92722c85,
  0xa2bfe8a1, 0xa81a664b, 0xc24b8b70, 0xc76c51a3, 0xd192e819, 0xd6990624, 0xf40e3585, 0x106aa070,
  0x19a4c116, 0x1e376c08, 0x2748774c, 0x34b0bcb5, 0x391c0cb3, 0x4ed8aa4a, 0x5b9cca4f, 0x682e6ff3,
  0x748f82ee, 0x78a5636f, 0x84c87814, 0x8cc70208, 0x90befffa, 0xa4506ceb, 0xbef9a3f7, 0xc67178f2]

/-- The chaining state: eight words. -/
structure State where
  (a b c d e f g h : UInt32)

/-- The first 32 fraction bits of the square roots of the first eight primes. -/
def State.start : State :=
  ⟨0x6a09e667, 0xbb67ae85, 0x3c6ef372, 0xa54ff53a, 0x510e527f, 0x9b05688c, 0x1f83d9ab, 0x5be0cd19⟩

/-- The words of two states added one by one. -/
def State.add (s t : State) : State :=
  ⟨s.a + t.a, s.b + t.b, s.c + t.c, s.d + t.d, s.e + t.e, s.f + t.f, s.g + t.g, s.h + t.h⟩

/-- The words of a state, in order. -/
def State.words (s : State) : List UInt32 := [s.a, s.b, s.c, s.d, s.e, s.f, s.g, s.h]

/-- A word turned to the right by `n` bits, for `0 < n < 32`. -/
@[inline] def rotr (x n : UInt32) : UInt32 := (x >>> n) ||| (x <<< (32 - n))

/-- One round, with the sum of the round's constant and its schedule word. -/
def State.round (s : State) (kw : UInt32) : State :=
  let s1 := rotr s.e 6 ^^^ rotr s.e 11 ^^^ rotr s.e 25
  let ch := (s.e &&& s.f) ^^^ (~~~s.e &&& s.g)
  let t1 := s.h + s1 + ch + kw
  let s0 := rotr s.a 2 ^^^ rotr s.a 13 ^^^ rotr s.a 22
  let maj := (s.a &&& s.b) ^^^ (s.a &&& s.c) ^^^ (s.b &&& s.c)
  ⟨t1 + (s0 + maj), s.a, s.b, s.c, s.d + t1, s.e, s.f, s.g⟩

/-- The octet at a position, zero past the end. -/
@[inline] def octetAt (m : ByteArray) (i : Nat) : UInt8 :=
  if h : i < m.size then m[i] else 0

/-- The big-endian word that starts at octet `i`. -/
def wordAt (m : ByteArray) (i : Nat) : UInt32 :=
  ((octetAt m i).toUInt32 <<< 24) ||| ((octetAt m (i + 1)).toUInt32 <<< 16) |||
    ((octetAt m (i + 2)).toUInt32 <<< 8) ||| (octetAt m (i + 3)).toUInt32

/-- The next word of a schedule, from the words already there. -/
def nextWord (w : Array UInt32) : UInt32 :=
  let n := w.size
  let back := fun k => w.getD (n - k) 0
  let s0 := rotr (back 15) 7 ^^^ rotr (back 15) 18 ^^^ (back 15 >>> 3)
  let s1 := rotr (back 2) 17 ^^^ rotr (back 2) 19 ^^^ (back 2 >>> 10)
  back 16 + s0 + back 7 + s1

/-- The 64 schedule words of the block that starts at octet `i`. -/
def schedule (m : ByteArray) (i : Nat) : Array UInt32 :=
  let first := (List.range 16).foldl (fun w k => w.push (wordAt m (i + 4 * k))) (Array.mkEmpty 64)
  (List.range 48).foldl (fun w _ => w.push (nextWord w)) first

/-- The state after the block that starts at octet `i`. -/
def State.absorb (s : State) (m : ByteArray) (i : Nat) : State :=
  let w := schedule m i
  s.add ((List.range 64).foldl (fun t k => t.round (roundConstants.getD k 0 + w.getD k 0)) s)

/-- The octets that fill a message of `n` octets up to whole blocks. -/
def padding (n : Nat) : Octets :=
  0x80 :: (List.replicate ((119 - n % 64) % 64) 0 ++ bigEndian 8 (8 * n))

/-- The state after a whole message. -/
def final (message : Octets) : State :=
  let m := (message ++ padding message.length).toByteArray
  (List.range (m.size / 64)).foldl (fun s k => s.absorb m (64 * k)) State.start

/-- The SHA-256 digest of a message. -/
def digest (message : Octets) : Block 32 :=
  ⟨(final message).words.flatMap fun w => bigEndian 4 w.toNat, by simp [State.words]⟩

end EndToEnd.Sha256

namespace EndToEnd.Hmac

/-- The key of an HMAC as one block of 64 octets: a longer one is hashed first. -/
def keyBlock (key : Octets) : Octets :=
  let k := if key.length ≤ 64 then key else (Sha256.digest key).octets
  k ++ List.replicate (64 - k.length) 0

/-- HMAC with SHA-256 (RFC 2104). -/
def tag (key message : Octets) : Block 32 :=
  let k := keyBlock key
  let inner := Sha256.digest (k.map (· ^^^ 0x36) ++ message)
  Sha256.digest (k.map (· ^^^ 0x5c) ++ inner.octets)

/-- One block of key material from a salt, a secret and a purpose (HKDF, RFC 5869, with an output of
one digest). No salt is the same as an empty one. -/
def expand (salt secret purpose : Octets) : Block 32 :=
  tag (tag salt secret).octets (purpose ++ [1])

end EndToEnd.Hmac
