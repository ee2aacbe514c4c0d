/-
  Ed25519 signatures (RFC 8032).

  Verification is the check without cofactor: the point computed from signature and key is written
  out and compared with the signature's first half octet by octet. Keys of small order are
  accepted, a key's coordinate need not be reduced, and the scalar must be below the group order.
-/
import EndToEnd.Curve.Field
import EndToEnd.Hash.Sha512

open EndToEnd.Field

namespace EndToEnd.Ed25519

/-- The order of the group that the base point generates. -/
def order : Nat := 2 ^ 252 + 27742317777372353535851937790883648493

/-- The constant d of the curve. -/
def d : Nat := mul (neg 121665) (inv 121666)

/-- Twice the constant d. -/
def d2 : Nat := add d d

/-- A point in extended coordinates. -/
structure Point where
  (x y z t : Nat)

/-- The neutral point. -/
def Point.zero : Point := ⟨0, 1, 1, 0⟩

/-- The sum of two points. -/
def Point.add (p q : Point) : Point :=
  let a := mul (sub p.y p.x) (sub q.y q.x)
  let b := mul (Field.add p.y p.x) (Field.add q.y q.x)
  let c := mul (mul p.t d2) q.t
  let zz := mul p.z q.z
  let dd := Field.add zz zz
  let e := sub b a
  let f := sub dd c
  let g := Field.add dd c
  let h := Field.add b a
  ⟨mul e f, mul g h, mul f g, mul e h⟩

/-- Twice a point. -/
def Point.double (p : Point) : Point :=
  let a := mul p.x p.x
  let b := mul p.y p.y
  let zz := mul p.z p.z
  let c := Field.add zz zz
  let h := Field.add a b
  let xy := Field.add p.x p.y
  let e := sub h (mul xy xy)
  let g := sub a b
  let f := Field.add c g
  ⟨mul e f, mul g h, mul f g, mul e h⟩

/-- The opposite point. -/
def Point.negate (p : Point) : Point := ⟨neg p.x, p.y, p.z, neg p.t⟩

/-- Double and add over the bits of `k` from bit `n - 1` down. -/
def Point.timesBits (p : Point) (k : Nat) : Nat → Point → Point
  | 0, acc => acc
  | n + 1, acc =>
    let twice := acc.double
    p.timesBits k n (if bit k n then twice.add p else twice)

/-- A multiple of a point, for factors below 2²⁵⁵. -/
def Point.times (p : Point) (k : Nat) : Point := p.timesBits k 255 .zero

/-- The written form of a point: its y, and the lowest bit of x on top. -/
def Point.compress (p : Point) : Block 32 :=
  let zi := inv p.z
  let x := mul p.x zi
  let y := mul p.y zi
  Block.littleEndian 32 (y + (x % 2) * 2 ^ 255)

/-- The point with a written form, if there is one. -/
def Point.decompress (b : Block 32) : Option Point :=
  let n := ofLittleEndian b.octets
  let y := (n % 2 ^ 255) % prime
  let yy := mul y y
  match sqrtRatio (sub yy 1) (Field.add (mul d yy) 1) with
  | none => none
  | some r =>
    let x := if r % 2 = (n / 2 ^ 255) % 2 then r else neg r
    some ⟨x, y, 1, mul x y⟩

/-- The base point. -/
def base : Point :=
  (Point.decompress (Block.littleEndian 32 (mul 4 (inv 5)))).getD .zero

/-- The number of a digest, modulo the group order. -/
def reduced (o : Octets) : Nat := ofLittleEndian (Sha512.digest o).octets % order

/-- The scalar and the nonce seed of a secret. -/
def expandSecret (secret : Block 32) : Nat × Octets :=
  let h := (Sha512.digest secret.octets).octets
  let n := ofLittleEndian (h.take 32) % 2 ^ 254
  (n - n % 8 + 2 ^ 254, h.drop 32)

/-- The public key of a secret. -/
def publicOf (secret : Block 32) : Block 32 := (base.times (expandSecret secret).1).compress

/-- The signature of a message. -/
def sign (secret : Block 32) (message : Octets) : Block 64 :=
  let (a, seed) := expandSecret secret
  let key := (base.times a).compress
  let r := reduced (seed ++ message)
  let point := (base.times r).compress
  let k := reduced (point.octets ++ key.octets ++ message)
  ⟨point.octets ++ littleEndian 32 ((r + k * a) % order), by simp⟩

/-- Whether 32 octets are the written form of a point. -/
def isPoint (key : Block 32) : Bool := (Point.decompress key).isSome

/-- Whether a signature fits a key and a message. -/
def verify (key : Block 32) (message : Octets) (signature : Block 64) : Bool :=
  match Point.decompress key with
  | none => false
  | some a =>
    let first := signature.octets.take 32
    let s := ofLittleEndian (signature.octets.drop 32)
    let k := reduced (first ++ key.octets ++ message)
    s < order && ((base.times s).add (a.negate.times k)).compress.octets == first

end EndToEnd.Ed25519
