/-
  BLAKE2b without a key (RFC 7693), for digests of 1 to 64 octets.

  The sixteen working words are held in one structure, which the memory-hard password hash shares.
-/
import EndToEnd.Octets

namespace EndToEnd.Blake2b

/-- Sixteen words of 64 bits. -/
structure Words where
  (w0 w1 w2 w3 w4 w5 w6 w7 w8 w9 w10 w11 w12 w13 w14 w15 : UInt64)

/-- Four words of 64 bits. -/
structure Quad where
  (a b c d : UInt64)

/-- A word turned to the right by `n` bits, for `0 < n < 64`. -/
@[inline] def rotr (x n : UInt64) : UInt64 := (x >>> n) ||| (x <<< (64 - n))

/-- The mixing of four words with two words of the message. -/
@[inline] def mix (a b c d x y : UInt64) : Quad :=
  let a := a + b + x
  let d := rotr (d ^^^ a) 32
  let c := c + d
  let b := rotr (b ^^^ c) 24
  let a := a + b + y
  let d := rotr (d ^^^ a) 16
  let c := c + d
  let b := rotr (b ^^^ c) 63
  ⟨a, b, c, d⟩

/-- The orders in which the rounds take the words of the message. -/
def orders : Array (Array Nat) := #[
  #[0, 1, 2, 3, 4, 5, 6, 7, 8, 9, 10, 11, 12, 13, 14, 15],
  #[14, 10, 4, 8, 9, 15, 13, 6, 1, 12, 0, 2, 11, 7, 5, 3],
  #[11, 8, 12, 0, 5, 2, 15, 13, 10, 14, 3, 6, 7, 1, 9, 4],
  #[7, 9, 3, 1, 13, 12, 11, 14, 2, 6, 5, 10, 4, 0, 15, 8],
  #[9, 0, 5, 7, 2, 4, 10, 15, 14, 1, 11, 12, 6, 8, 3, 13],
  #[2, 12, 6, 10, 0, 11, 8, 3, 4, 13, 7, 5, 15, 14, 1, 9],
  #[12, 5, 1, 15, 14, 13, 4, 10, 0, 7, 6, 3, 9, 2, 8, 11],
  #[13, 11, 7, 14, 12, 1, 3, 9, 5, 0, 15, 4, 8, 6, 2, 10],
  #[6, 15, 14, 9, 11, 3, 0, 8, 12, 2, 13, 7, 1, 4, 10, 5],
  #[10, 2, 8, 4, 7, 6, 1, 5, 15, 11, 9, 14, 3, 12, 13, 0]]

/-- The first 64 fraction bits of the square roots of the first eight primes. -/
def iv : Array UInt64 := #[
  0x6a09e667f3bcc908, 0xbb67ae8584caa73b, 0x3c6ef372fe94f82b, 0xa54ff53a5f1d36f1,
  0x510e527fade682d1, 0x9b05688c2b3e6c1f, 0x1f83d9abfb41bd6b, 0x5be0cd19137e2179]

/-- One round: the columns, then the diagonals. -/
def Words.round (v : Words) (m : Array UInt64) (order : Array Nat) : Words :=
  let word := fun i => m.getD (order.getD i 0) 0
  let c0 := mix v.w0 v.w4 v.w8 v.w12 (word 0) (word 1)
  let c1 := mix v.w1 v.w5 v.w9 v.w13 (word 2) (word 3)
  let c2 := mix v.w2 v.w6 v.w10 v.w14 (word 4) (word 5)
  let c3 := mix v.w3 v.w7 v.w11 v.w15 (word 6) (word 7)
  let d0 := mix c0.a c1.b c2.c c3.d (word 8) (word 9)
  let d1 := mix c1.a c2.b c3.c c0.d (word 10) (word 11)
  let d2 := mix c2.a c3.b c0.c c1.d (word 12) (word 13)
  let d3 := mix c3.a c0.b c1.c c2.d (word 14) (word 15)
  ⟨d0.a, d1.a, d2.a, d3.a, d3.b, d0.b, d1.b, d2.b,
   d2.c, d3.c, d0.c, d1.c, d1.d, d2.d, d3.d, d0.d⟩

/-- The chaining words after one block of the message, `count` octets of it read so far. -/
def compress (h m : Array UInt64) (count : Nat) (isLast : Bool) : Array UInt64 :=
  let chained := fun i => h.getD i 0
  let v := fun i => iv.getD i 0
  let start : Words :=
    ⟨chained 0, chained 1, chained 2, chained 3, chained 4, chained 5, chained 6, chained 7, v 0, v 1, v 2, v 3,
     v 4 ^^^ UInt64.ofNat count, v 5 ^^^ UInt64.ofNat (count / 2 ^ 64),
     if isLast then ~~~ v 6 else v 6, v 7⟩
  let e := (List.range 12).foldl (fun w r => w.round m (orders.getD (r % 10) #[])) start
  #[chained 0 ^^^ e.w0 ^^^ e.w8, chained 1 ^^^ e.w1 ^^^ e.w9, chained 2 ^^^ e.w2 ^^^ e.w10,
    chained 3 ^^^ e.w3 ^^^ e.w11, chained 4 ^^^ e.w4 ^^^ e.w12, chained 5 ^^^ e.w5 ^^^ e.w13,
    chained 6 ^^^ e.w6 ^^^ e.w14, chained 7 ^^^ e.w7 ^^^ e.w15]

/-- The octet at a position, zero past the end. -/
@[inline] def octetAt (m : ByteArray) (i : Nat) : UInt64 :=
  if h : i < m.size then m[i].toUInt64 else 0

/-- The little-endian word that starts at octet `i`, zeros past the end. -/
def wordAt (m : ByteArray) (i : Nat) : UInt64 :=
  octetAt m i ||| (octetAt m (i + 1) <<< 8) ||| (octetAt m (i + 2) <<< 16) |||
    (octetAt m (i + 3) <<< 24) ||| (octetAt m (i + 4) <<< 32) ||| (octetAt m (i + 5) <<< 40) |||
    (octetAt m (i + 6) <<< 48) ||| (octetAt m (i + 7) <<< 56)

/-- The sixteen words of the block that starts at octet `i`. -/
def blockAt (m : ByteArray) (i : Nat) : Array UInt64 :=
  (Array.range 16).map fun k => wordAt m (i + 8 * k)

/-- The digest of `n` octets of a message, for `n` from 1 to 64. -/
def digest (n : Nat) (message : Octets) : Octets :=
  let m := message.toByteArray
  let first := iv.setIfInBounds 0 (iv.getD 0 0 ^^^ 0x01010000 ^^^ UInt64.ofNat n)
  let whole := (m.size - 1) / 128
  let h := (List.range whole).foldl
    (fun h k => compress h (blockAt m (128 * k)) (128 * (k + 1)) false) first
  let h := compress h (blockAt m (128 * whole)) m.size true
  (h.toList.flatMap fun w => littleEndian 8 w.toNat).take n

end EndToEnd.Blake2b
