/-
  Arithmetic modulo the prime 2²⁵⁵ − 19, on natural numbers.
-/
import EndToEnd.Octets

namespace EndToEnd.Field

/-- The prime 2²⁵⁵ − 19. -/
def prime : Nat := 2 ^ 255 - 19

/-- Sum modulo the prime. -/
@[inline] def add (a b : Nat) : Nat := (a + b) % prime

/-- Difference modulo the prime, for `b` below it. -/
@[inline] def sub (a b : Nat) : Nat := (a + prime - b) % prime

/-- Product modulo the prime. -/
@[inline] def mul (a b : Nat) : Nat := (a * b) % prime

/-- Opposite modulo the prime, for `a` below it. -/
def neg (a : Nat) : Nat := (prime - a) % prime

/-- `acc` times the power of `base` whose exponent is given by its `n` low bits. -/
def powBits : Nat → (base exponent acc : Nat) → Nat
  | 0, _, _, acc => acc
  | n + 1, base, exponent, acc =>
    powBits n (mul base base) (exponent / 2) (if exponent % 2 = 1 then mul acc base else acc)

/-- Power modulo the prime, for exponents below 2²⁵⁵. -/
def pow (base exponent : Nat) : Nat := powBits 255 base exponent 1

/-- Inverse modulo the prime; zero has zero. -/
def inv (a : Nat) : Nat := pow a (prime - 2)

/-- A square root of −1. -/
def sqrtMinusOne : Nat := pow 2 ((prime - 1) / 4)

/-- A square root of `u / v`, if there is one. -/
def sqrtRatio (u v : Nat) : Option Nat :=
  let v3 := mul (mul v v) v
  let v7 := mul (mul v3 v3) v
  let r := mul (mul u v3) (pow (mul u v7) ((prime - 5) / 8))
  let check := mul v (mul r r)
  if check = u % prime then some r
  else if check = neg (u % prime) then some (mul r sqrtMinusOne)
  else none

/-- Bit `i` of a number. -/
@[inline] def bit (n i : Nat) : Bool := (n >>> i) % 2 = 1

end EndToEnd.Field
