/-
  Octets written as hexadecimal digits, two for each octet, in lower case; either case is read.

  `decode_encode` reads back what was written; `encode_of_decode` says that what is read is the
  written form up to the case of its digits.
-/
import EndToEnd.Octets

namespace EndToEnd.Hex

/-- The digit of a value below sixteen. -/
def digit (n : Nat) : Char :=
  if n < 10 then Char.ofNat (48 + n) else Char.ofNat (87 + n)

/-- The value of a digit in either case. -/
def value? (c : Char) : Option Nat :=
  let n := c.toNat
  if 48 ≤ n ∧ n ≤ 57 then some (n - 48)
  else if 97 ≤ n ∧ n ≤ 102 then some (n - 87)
  else if 65 ≤ n ∧ n ≤ 70 then some (n - 55)
  else none

/-- The digits of octets. -/
def encode (o : Octets) : List Char :=
  o.flatMap fun b => [digit (b.toNat / 16), digit (b.toNat % 16)]

/-- Why characters are no written octets. -/
inductive Fault where
  /-- The number of octets that the characters are written with is odd. -/
  | oddLength
  /-- The character at `position` is no digit. -/
  | badDigit (c : Char) (position : Nat)
deriving DecidableEq

/-- The octets of pairs of digits, the first of which stands at `position`. -/
def decodePairs : List Char → (position : Nat) → Except Fault Octets
  | [], _ => .ok []
  | [a], position =>
    match value? a with
    | none => .error (.badDigit a position)
    | some _ => .error .oddLength
  | a :: b :: rest, position =>
    match value? a, value? b with
    | none, _ => .error (.badDigit a position)
    | some _, none => .error (.badDigit b (position + 1))
    | some x, some y =>
      match decodePairs rest (position + 2) with
      | .ok o => .ok (UInt8.ofNat (16 * x + y) :: o)
      | .error e => .error e

/-- The number of octets that characters are written with. -/
def writtenLength : List Char → Nat
  | [] => 0
  | c :: cs => c.utf8Size + writtenLength cs

/-- The octets that digits stand for. What is written with an odd number of octets is refused
first. -/
def decode (cs : List Char) : Except Fault Octets :=
  if writtenLength cs % 2 = 1 then .error .oddLength else decodePairs cs 0

/-- The text of octets. -/
def text (o : Octets) : String := String.ofList (encode o)

@[simp] theorem length_encode (o : Octets) : (encode o).length = 2 * o.length := by
  induction o with
  | nil => rfl
  | cons b o ih =>
    simp only [encode, List.flatMap_cons, List.length_append, List.length_cons, List.length_nil] at ih ⊢
    omega

theorem value?_digit : ∀ n < 16, value? (digit n) = some n := by decide

theorem decodePairs_encode (o : Octets) (i : Nat) : decodePairs (encode o) i = .ok o := by
  induction o generalizing i with
  | nil => rfl
  | cons b o ih =>
    have hb := b.toNat_lt
    have h1 := value?_digit (b.toNat / 16) (by omega)
    have h2 := value?_digit (b.toNat % 16) (by omega)
    have hv : UInt8.ofNat (16 * (b.toNat / 16) + b.toNat % 16) = b := by
      apply UInt8.toNat_inj.mp
      rw [UInt8.toNat_ofNat']
      omega
    have he : encode (b :: o) = digit (b.toNat / 16) :: digit (b.toNat % 16) :: encode o := rfl
    rw [he]
    simp only [decodePairs, h1, h2, ih, hv]

theorem utf8Size_digit : ∀ n < 16, (digit n).utf8Size = 1 := by decide

theorem writtenLength_encode (o : Octets) : writtenLength (encode o) = 2 * o.length := by
  induction o with
  | nil => rfl
  | cons b o ih =>
    have hb := b.toNat_lt
    have h1 := utf8Size_digit (b.toNat / 16) (by omega)
    have h2 := utf8Size_digit (b.toNat % 16) (by omega)
    have he : encode (b :: o) = digit (b.toNat / 16) :: digit (b.toNat % 16) :: encode o := rfl
    simp only [he, writtenLength, h1, h2, ih, List.length_cons]
    omega

/-- What was written is read back. -/
theorem decode_encode (o : Octets) : decode (encode o) = .ok o := by
  unfold decode
  rw [if_neg (by rw [writtenLength_encode]; omega), decodePairs_encode]

/-- The lower-case form of a digit. -/
def lower (c : Char) : Char :=
  match value? c with
  | some n => digit n
  | none => c

theorem value?_lt {c : Char} {n : Nat} (h : value? c = some n) : n < 16 := by
  unfold value? at h
  simp only at h
  split at h
  · simp at h; omega
  · split at h
    · simp at h; omega
    · split at h
      · simp at h; omega
      · cases h

theorem encode_of_decodePairs {cs : List Char} {i : Nat} {o : Octets}
    (h : decodePairs cs i = .ok o) : encode o = cs.map lower := by
  induction cs, i using decodePairs.induct generalizing o with
  | case1 => simp only [decodePairs] at h; cases h; rfl
  | case2 i a ha => simp [decodePairs, ha] at h
  | case3 i a x ha => simp [decodePairs, ha] at h
  | case4 i a b rest ha => simp [decodePairs, ha] at h
  | case5 i a b rest x ha hb => simp [decodePairs, ha, hb] at h
  | case6 i a b rest x y ha hb r hr ih =>
    simp only [decodePairs, ha, hb, hr] at h
    cases h
    have hx := value?_lt ha
    have hy := value?_lt hb
    have hv : (UInt8.ofNat (16 * x + y)).toNat = 16 * x + y := by
      rw [UInt8.toNat_ofNat']; omega
    have he : encode (UInt8.ofNat (16 * x + y) :: r) =
        digit ((UInt8.ofNat (16 * x + y)).toNat / 16) ::
          digit ((UInt8.ofNat (16 * x + y)).toNat % 16) :: encode r := rfl
    have d1 : (16 * x + y) / 16 = x := by omega
    have d2 : (16 * x + y) % 16 = y := by omega
    rw [he, hv, d1, d2, ih hr]
    simp [lower, ha, hb]
  | case7 i a b rest x y ha hb e hr ih => simp [decodePairs, ha, hb, hr] at h

/-- What is read is the written form, up to the case of the digits. -/
theorem encode_of_decode {cs : List Char} {o : Octets} (h : decode cs = .ok o) :
    encode o = cs.map lower := by
  unfold decode at h
  split at h
  · cases h
  · exact encode_of_decodePairs h

/-- The octet that the written form of a character starts with, as a character. -/
def leadingOctet (c : Char) : Nat :=
  let n := c.toNat
  if n < 0x80 then n
  else if n < 0x800 then 0xc0 + n / 0x40
  else if n < 0x10000 then 0xe0 + n / 0x1000
  else 0xf0 + n / 0x40000

/-- The lower-case digits of a number, without leading zeros. -/
def digits (n : Nat) : String := String.ofList (Nat.toDigits 16 n)

/-- An octet shown as a quoted character: control characters and the like by their number. -/
def quoted (n : Nat) : String :=
  if n = 0 then "'\\0'"
  else if n = 9 then "'\\t'"
  else if n = 10 then "'\\n'"
  else if n = 13 then "'\\r'"
  else if n = 39 then "'\\''"
  else if n = 92 then "'\\\\'"
  else if n < 32 ∨ n = 127 ∨ (128 ≤ n ∧ n ≤ 160) ∨ n = 173 then
    "'\\u\x7b" ++ digits n ++ "\x7d'"
  else "'" ++ String.singleton (Char.ofNat n) ++ "'"

/-- The wording of a fault. -/
def Fault.message : Fault → String
  | .oddLength => "Odd number of digits"
  | .badDigit c i => "Invalid character " ++ quoted (leadingOctet c) ++ s!" at position {i}"

end EndToEnd.Hex
