/-
  X25519 key agreement (RFC 7748).

  Every 32 octets are a secret and every 32 octets are a public value, also those of small order.
-/
import EndToEnd.Curve.Field

open EndToEnd.Field

namespace EndToEnd.X25519

/-- The scalar of a secret: three low bits cleared, the top bit cleared, the next one set. -/
def scalar (secret : Block 32) : Nat :=
  let n := ofLittleEndian secret.octets % 2 ^ 254
  n - n % 8 + 2 ^ 254

/-- The coordinate of a public value: the top bit is ignored. -/
def coordinate (point : Block 32) : Nat := (ofLittleEndian point.octets % 2 ^ 255) % prime

/-- The two points of a Montgomery ladder, as fractions. -/
structure Ladder where
  (x2 z2 x3 z3 : Nat)

/-- One step of the ladder for the point with coordinate `u`. -/
def Ladder.step (u : Nat) (l : Ladder) (swap : Bool) : Ladder :=
  let (x2, z2, x3, z3) := if swap then (l.x3, l.z3, l.x2, l.z2) else (l.x2, l.z2, l.x3, l.z3)
  let a := add x2 z2
  let aa := mul a a
  let b := sub x2 z2
  let bb := mul b b
  let e := sub aa bb
  let da := mul (sub x3 z3) a
  let cb := mul (add x3 z3) b
  let s := add da cb
  let d := sub da cb
  let next : Ladder := ⟨mul aa bb, mul e (add aa (mul 121665 e)), mul s s, mul u (mul d d)⟩
  if swap then ⟨next.x3, next.z3, next.x2, next.z2⟩ else next

/-- The ladder over the bits of `k` from bit `n - 1` down. -/
def Ladder.run (u k : Nat) : Nat → Ladder → Ladder
  | 0, l => l
  | n + 1, l => Ladder.run u k n (l.step u (bit k n))

/-- The coordinate of `k` times the point with coordinate `u`. -/
def multiply (k u : Nat) : Nat :=
  let l := Ladder.run u k 255 ⟨1, 0, u, 1⟩
  mul l.x2 (inv l.z2)

/-- What a secret and another party's public value agree on. -/
def agree (secret point : Block 32) : Block 32 :=
  Block.littleEndian 32 (multiply (scalar secret) (coordinate point))

/-- The public value of a secret. -/
def publicOf (secret : Block 32) : Block 32 :=
  Block.littleEndian 32 (multiply (scalar secret) 9)

end EndToEnd.X25519
