/-
  Whole numbers written in decimal digits, without leading zeros.
-/
import EndToEnd.Octets

namespace EndToEnd.Decimal

/-- The digit of a value below ten. -/
def digit (n : Nat) : Char := Char.ofNat (48 + n)

/-- Whether a character is a decimal digit. -/
def isDigit (c : Char) : Bool := 48 ≤ c.toNat && c.toNat ≤ 57

/-- The digits of a number, most significant first. -/
def digits (n : Nat) : List Char :=
  if n < 10 then [digit n] else digits (n / 10) ++ [digit (n % 10)]
termination_by n

/-- The number that digits stand for. -/
def value (cs : List Char) : Nat := cs.foldl (fun v c => 10 * v + (c.toNat - 48)) 0

/-- The digits of a whole number, after a sign if it is negative. -/
def signed (n : Int) : List Char :=
  if n < 0 then '-' :: digits n.natAbs else digits n.natAbs

theorem toNat_digit : ∀ n < 10, (digit n).toNat = 48 + n := by decide

theorem isDigit_digit : ∀ n < 10, isDigit (digit n) = true := by decide

theorem value_digits (n : Nat) : value (digits n) = n := by
  induction n using digits.induct with
  | case1 n h =>
    rw [digits, if_pos h]
    simp [value, toNat_digit n h]
  | case2 n h ih =>
    rw [digits, if_neg h]
    have hd := toNat_digit (n % 10) (Nat.mod_lt _ (by decide))
    unfold value at ih ⊢
    rw [List.foldl_append, ih]
    simp only [List.foldl_cons, List.foldl_nil, hd]
    omega

theorem digits_all (n : Nat) : (digits n).all isDigit = true := by
  induction n using digits.induct with
  | case1 n h => rw [digits, if_pos h]; simp [isDigit_digit n h]
  | case2 n h ih =>
    rw [digits, if_neg h]
    simp [List.all_append, ih, isDigit_digit (n % 10) (Nat.mod_lt _ (by decide))]

theorem digits_ne_nil (n : Nat) : digits n ≠ [] := by
  rw [digits]; split <;> simp

/-- Only zero is written with a zero in front. -/
theorem head?_digits {n : Nat} (h : (digits n).head? = some '0') : n = 0 := by
  induction n using digits.induct with
  | case1 n hn =>
    rw [digits, if_pos hn] at h
    have key : ∀ m < 10, digit m = '0' → m = 0 := by decide
    exact key n hn (by simpa using h)
  | case2 n hn ih =>
    rw [digits, if_neg hn] at h
    have hd : (digits (n / 10)).head? = some '0' := by
      cases hc : digits (n / 10) with
      | nil => exact absurd hc (digits_ne_nil _)
      | cons c cs => rw [hc] at h; simpa using h
    have := ih hd
    omega

end EndToEnd.Decimal
