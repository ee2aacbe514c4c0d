/-
  The AES-256 block cipher (FIPS 197), encryption only.

  The substitution box is computed from the field of 256 elements. A round looks four combined
  tables up, one for each octet of a column; the tables are the box followed by the column mix.
-/
import EndToEnd.Octets

namespace EndToEnd.Aes

/-- Doubling in the field of 256 elements, modulo x⁸ + x⁴ + x³ + x + 1. -/
def double (a : UInt8) : UInt8 := (a <<< 1) ^^^ (if a &&& 0x80 = 0 then 0 else 0x1b)

/-- Product in the field of 256 elements. -/
def mul (a b : UInt8) : UInt8 :=
  ((List.range 8).foldl (fun (acc : UInt8 × UInt8) i =>
    (if (b >>> UInt8.ofNat i) &&& 1 = 1 then acc.1 ^^^ acc.2 else acc.1, double acc.2)) (0, a)).1

/-- The 254th power, which is the inverse of every element but zero. -/
def inverse (a : UInt8) : UInt8 :=
  let square := fun x => mul x x
  let a2 := square a
  let a3 := mul a2 a
  let a12 := square (square a3)
  let a15 := mul a12 a3
  let a240 := square (square (square (square a15)))
  mul a240 (mul a12 a2)

/-- An octet turned to the left. -/
def rotl8 (a n : UInt8) : UInt8 := (a <<< n) ||| (a >>> (8 - n))

/-- The substitution box: the inverse, then an affine map. -/
def substitute (a : UInt8) : UInt8 :=
  let b := inverse a
  b ^^^ rotl8 b 1 ^^^ rotl8 b 2 ^^^ rotl8 b 3 ^^^ rotl8 b 4 ^^^ 0x63

/-- The substitution box as a table. -/
def box : Array UInt32 := (Array.range 256).map fun i => (substitute (UInt8.ofNat i)).toUInt32

/-- The four octets of a word, most significant first. -/
@[inline] def pack (a b c d : UInt32) : UInt32 :=
  (a <<< 24) ||| (b <<< 16) ||| (c <<< 8) ||| d

/-- Substitution and column mix of an octet in the first row. -/
def mixed : Array UInt32 := (Array.range 256).map fun i =>
  let s := substitute (UInt8.ofNat i)
  pack (double s).toUInt32 s.toUInt32 s.toUInt32 (double s ^^^ s).toUInt32

/-- A word turned to the right by `n` bits, for `0 < n < 32`. -/
@[inline] def rotr (x n : UInt32) : UInt32 := (x >>> n) ||| (x <<< (32 - n))

/-- The combined tables for the four rows. -/
def mixed1 : Array UInt32 := mixed.map (rotr · 8)
@[inherit_doc mixed1] def mixed2 : Array UInt32 := mixed.map (rotr · 16)
@[inherit_doc mixed1] def mixed3 : Array UInt32 := mixed.map (rotr · 24)

/-- The entry of a table for one octet of a word. -/
@[inline] def entry (table : Array UInt32) (w shift : UInt32) : UInt32 :=
  table.getD ((w >>> shift) &&& 0xff).toNat 0

/-- The box applied to each octet of a word. -/
def substituteWord (w : UInt32) : UInt32 :=
  pack (entry box w 24) (entry box w 16) (entry box w 8) (entry box w 0)

/-- The state of the cipher: four columns. -/
structure State where
  (w0 w1 w2 w3 : UInt32)

/-- The state with one round's key added. -/
@[inline] def State.addKey (s : State) (keys : Array UInt32) (r : Nat) : State :=
  ⟨s.w0 ^^^ keys.getD (4 * r) 0, s.w1 ^^^ keys.getD (4 * r + 1) 0,
   s.w2 ^^^ keys.getD (4 * r + 2) 0, s.w3 ^^^ keys.getD (4 * r + 3) 0⟩

/-- One column of a full round: the octets come from four columns in turn. -/
@[inline] def column (a b c d : UInt32) : UInt32 :=
  entry mixed a 24 ^^^ entry mixed1 b 16 ^^^ entry mixed2 c 8 ^^^ entry mixed3 d 0

/-- One column of the last round, which does not mix. -/
@[inline] def lastColumn (a b c d : UInt32) : UInt32 :=
  pack (entry box a 24) (entry box b 16) (entry box c 8) (entry box d 0)

/-- A full round. -/
def State.round (s : State) (keys : Array UInt32) (r : Nat) : State :=
  State.addKey ⟨column s.w0 s.w1 s.w2 s.w3, column s.w1 s.w2 s.w3 s.w0,
    column s.w2 s.w3 s.w0 s.w1, column s.w3 s.w0 s.w1 s.w2⟩ keys r

/-- The last round. -/
def State.lastRound (s : State) (keys : Array UInt32) (r : Nat) : State :=
  State.addKey ⟨lastColumn s.w0 s.w1 s.w2 s.w3, lastColumn s.w1 s.w2 s.w3 s.w0,
    lastColumn s.w2 s.w3 s.w0 s.w1, lastColumn s.w3 s.w0 s.w1 s.w2⟩ keys r

/-- The next word of the key schedule, from the words already there. -/
def nextKeyWord (keys : Array UInt32) : UInt32 :=
  let i := keys.size
  let last := keys.getD (i - 1) 0
  let turned :=
    if i % 8 = 0 then
      substituteWord (rotr last 24) ^^^ ((UInt32.ofNat (1 <<< (i / 8 - 1))) <<< 24)
    else if i % 8 = 4 then substituteWord last
    else last
  keys.getD (i - 8) 0 ^^^ turned

/-- The 60 words of the key schedule. -/
def expandKey (key : Block 32) : Array UInt32 :=
  let word := fun i => UInt32.ofNat (ofBigEndian ((key.octets.drop (4 * i)).take 4))
  (List.range 52).foldl (fun keys _ => keys.push (nextKeyWord keys)) ((Array.range 8).map word)

/-- The cipher on one state. -/
def encrypt (keys : Array UInt32) (s : State) : State :=
  let s := (List.range 13).foldl (fun s r => s.round keys (r + 1)) (s.addKey keys 0)
  s.lastRound keys 14

/-- The octets of a state. -/
def State.octets (s : State) : Octets :=
  [s.w0, s.w1, s.w2, s.w3].flatMap fun w => bigEndian 4 w.toNat

@[simp] theorem State.length_octets (s : State) : s.octets.length = 16 := by
  simp [State.octets]

end EndToEnd.Aes
