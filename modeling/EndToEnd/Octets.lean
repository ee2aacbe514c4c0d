/-
  Strings of octets, blocks of a fixed length, and numbers written as octets.

  Everything that is hashed, signed, sealed or sent is a list of octets. Keys, nonces, digests and
  signatures are blocks: their length is part of their type. The main statements say that a number
  is read back from its little-endian form, and that the little-endian form of a string's value is
  that string.
-/

-- powers of numbers are those of the core library, also where a larger one has its own
attribute [default_instance 20000] instPowNat

namespace EndToEnd

/-- A string of octets. -/
abbrev Octets := List UInt8

/-- A string of exactly `n` octets. -/
structure Block (n : Nat) where
  octets : Octets
  length_eq : octets.length = n
deriving DecidableEq

namespace Block

variable {n : Nat}

theorem ext_octets {a b : Block n} (h : a.octets = b.octets) : a = b := by
  cases a; cases b; simp_all

/-- The block with these octets, if there are exactly `n` of them. -/
def ofOctets? (n : Nat) (o : Octets) : Option (Block n) :=
  if h : o.length = n then some ⟨o, h⟩ else none

/-- The first `n` octets, filled up with zeros where there are too few. -/
def ofPadded (n : Nat) (o : Octets) : Block n :=
  ⟨(o ++ List.replicate n 0).take n, by simp⟩

/-- The block of `n` zeros. -/
def zero (n : Nat) : Block n := ⟨List.replicate n 0, by simp⟩

instance : Inhabited (Block n) := ⟨zero n⟩

@[simp] theorem length_octets (a : Block n) : a.octets.length = n := a.length_eq

@[simp] theorem ofOctets?_octets (a : Block n) : ofOctets? n a.octets = some a := by
  simp [ofOctets?]

theorem ofOctets?_eq_some {o : Octets} {a : Block n} : ofOctets? n o = some a ↔ o = a.octets := by
  unfold ofOctets?
  constructor
  · intro h
    split at h
    · cases h; rfl
    · cases h
  · rintro rfl; simp

end Block

/-- The `k` low octets of a number, least significant first. -/
def littleEndian : Nat → Nat → Octets
  | 0, _ => []
  | k + 1, v => UInt8.ofNat v :: littleEndian k (v / 256)

/-- The number a string of octets stands for, least significant octet first. -/
def ofLittleEndian : Octets → Nat
  | [] => 0
  | b :: bs => b.toNat + 256 * ofLittleEndian bs

/-- The `k` low octets of a number, most significant first. -/
def bigEndian (k v : Nat) : Octets := (littleEndian k v).reverse

/-- The number a string of octets stands for, most significant octet first. -/
def ofBigEndian (o : Octets) : Nat := ofLittleEndian o.reverse

@[simp] theorem length_littleEndian (k v : Nat) : (littleEndian k v).length = k := by
  induction k generalizing v with
  | zero => rfl
  | succ k ih => simp [littleEndian, ih]

@[simp] theorem length_bigEndian (k v : Nat) : (bigEndian k v).length = k := by
  simp [bigEndian]

theorem ofLittleEndian_littleEndian (k v : Nat) (h : v < Nat.pow 256 k) :
    ofLittleEndian (littleEndian k v) = v := by
  induction k generalizing v with
  | zero => exact (Nat.lt_one_iff.1 h).symm
  | succ k ih =>
    have hq : v / 256 < Nat.pow 256 k := (Nat.div_lt_iff_lt_mul (by decide)).2 h
    simp only [littleEndian, ofLittleEndian, ih _ hq, UInt8.toNat_ofNat']
    omega

theorem ofLittleEndian_lt (o : Octets) : ofLittleEndian o < Nat.pow 256 o.length := by
  induction o with
  | nil => exact Nat.one_pos
  | cons b bs ih =>
    have hb := b.toNat_lt
    have hpow : Nat.pow 256 (b :: bs).length = Nat.pow 256 bs.length * 256 := rfl
    rw [ofLittleEndian, hpow]
    omega

theorem littleEndian_ofLittleEndian (o : Octets) :
    littleEndian o.length (ofLittleEndian o) = o := by
  induction o with
  | nil => rfl
  | cons b bs ih =>
    have hb := b.toNat_lt
    have hq : (b.toNat + 256 * ofLittleEndian bs) / 256 = ofLittleEndian bs := by omega
    have hr : UInt8.ofNat (b.toNat + 256 * ofLittleEndian bs) = b := by
      apply UInt8.toNat_inj.mp
      rw [UInt8.toNat_ofNat']
      omega
    simp only [List.length_cons, ofLittleEndian, littleEndian, hq, hr, ih]

/-- The little-endian block of `k` octets of a number. -/
def Block.littleEndian (k v : Nat) : Block k := ⟨EndToEnd.littleEndian k v, by simp⟩

end EndToEnd
