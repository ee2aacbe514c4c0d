/-
  Numbers written with their most significant octet first, blocks at the front of octets, and how
  many octets there can be.
-/
import EndToEnd.Octets

namespace EndToEnd

/-- A number of eight octets says how many there are, as it does of all that a machine can hold. -/
def Addressable (o : Octets) : Prop := o.length < 256 ^ 8

instance : DecidablePred Addressable := fun o => inferInstanceAs (Decidable (o.length < 256 ^ 8))

theorem ofBigEndian_bigEndian (k v : Nat) (h : v < Nat.pow 256 k) :
    ofBigEndian (bigEndian k v) = v := by
  unfold ofBigEndian bigEndian
  rw [List.reverse_reverse]
  exact ofLittleEndian_littleEndian k v h

theorem bigEndian_ofBigEndian (o : Octets) : bigEndian o.length (ofBigEndian o) = o := by
  unfold bigEndian ofBigEndian
  rw [← List.length_reverse, littleEndian_ofLittleEndian, List.reverse_reverse]

/-- Numbers that fit into their octets are told apart by them. -/
theorem bigEndian_inj {k v w : Nat} (hv : v < Nat.pow 256 k) (hw : w < Nat.pow 256 k)
    (h : bigEndian k v = bigEndian k w) : v = w := by
  rw [← ofBigEndian_bigEndian k v hv, h, ofBigEndian_bigEndian k w hw]

/-- The low octets of a number are the first ones. -/
theorem take_littleEndian {j k : Nat} (h : j ≤ k) (v : Nat) :
    (littleEndian k v).take j = littleEndian j v := by
  induction k generalizing j v with
  | zero =>
    obtain rfl : j = 0 := by omega
    rfl
  | succ k ih =>
    cases j with
    | zero => rfl
    | succ j => rw [littleEndian, littleEndian, List.take_succ_cons, ih (by omega)]

/-- Zeros behind a number do not change it. -/
theorem ofLittleEndian_append_zeros (o : Octets) (n : Nat) :
    ofLittleEndian (o ++ List.replicate n 0) = ofLittleEndian o := by
  induction o with
  | nil =>
    induction n with
    | zero => rfl
    | succ n ih =>
      rw [List.nil_append] at ih ⊢
      simp only [List.replicate_succ, ofLittleEndian, ih]
      rfl
  | cons b bs ih => simp only [List.cons_append, ofLittleEndian, ih]

namespace Block

variable {n : Nat}

@[simp] theorem take_octets_append (b : Block n) (o : Octets) : (b.octets ++ o).take n = b.octets := by
  rw [List.take_append_of_le_length (by simp)]
  exact List.take_of_length_le (by simp)

@[simp] theorem drop_octets_append (b : Block n) (o : Octets) : (b.octets ++ o).drop n = o := by
  rw [List.drop_append_of_le_length (by simp), List.drop_of_length_le (by simp), List.nil_append]

end Block

end EndToEnd
