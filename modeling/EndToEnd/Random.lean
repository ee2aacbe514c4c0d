/-
  Random octets as an endless tape that is read from left to right.

  Nothing in the library depends on how the tape is filled, so every statement about it holds for
  all tapes. A tape filled by SplitMix64 from a seed makes runs repeatable.
-/
import EndToEnd.Octets

namespace EndToEnd

/-- An endless tape of octets, and how many of them have been read. -/
structure Tape where
  octetAt : Nat → UInt8
  position : Nat

namespace Tape

/-- The next `n` octets. -/
def peek (t : Tape) (n : Nat) : Octets := (List.range n).map fun i => t.octetAt (t.position + i)

/-- The tape with `n` more octets read. -/
def skip (t : Tape) (n : Nat) : Tape := { t with position := t.position + n }

/-- The next block of `n` octets. -/
def block (t : Tape) (n : Nat) : Block n := ⟨t.peek n, by simp [peek]⟩

/-- The mixing function of SplitMix64. -/
def mix (z : UInt64) : UInt64 :=
  let z := (z ^^^ (z >>> 30)) * 0xbf58476d1ce4e5b9
  let z := (z ^^^ (z >>> 27)) * 0x94d049bb133111eb
  z ^^^ (z >>> 31)

/-- The tape of SplitMix64 with a seed: eight octets of each mixed state, least significant first. -/
def ofSeed (seed : UInt64) : Tape where
  octetAt i :=
    let z := mix (seed + UInt64.ofNat (i / 8 + 1) * 0x9e3779b97f4a7c15)
    (z >>> UInt64.ofNat (8 * (i % 8))).toUInt8
  position := 0

end Tape

/-- A computation that may read the tape. -/
abbrev Draw := StateM Tape

/-- Reads a block of `n` octets off the tape. -/
def Draw.block (n : Nat) : Draw (Block n) := fun t => (t.block n, t.skip n)

end EndToEnd
