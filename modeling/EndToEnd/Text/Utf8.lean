/-
  UTF-8: text written as octets, octets read as text, and where octets stop being text.

  `decode?_eq_some_iff` says that exactly the written forms of texts are read.
-/
import EndToEnd.Octets

namespace EndToEnd.Utf8

/-- The octets of a text. -/
def encode (s : String) : Octets := s.toUTF8.data.toList

/-- The text that octets stand for, if they stand for one. -/
def decode? (o : Octets) : Option String := String.fromUTF8? ⟨o.toArray⟩

theorem decode?_encode (s : String) : decode? (encode s) = some s := by
  have h : (⟨(encode s).toArray⟩ : ByteArray) = s.toByteArray := by simp [encode]
  simp only [decode?, h, String.fromUTF8?, s.isValidUTF8, dite_true]
  rfl

theorem decode?_eq_some_iff {o : Octets} {s : String} : decode? o = some s ↔ o = encode s := by
  constructor
  · intro h
    simp only [decode?, String.fromUTF8?] at h
    split at h
    · cases h; rfl
    · cases h
  · rintro rfl; exact decode?_encode s

theorem encode_inj {s t : String} (h : encode s = encode t) : s = t := by
  have := congrArg decode? h
  simpa [decode?_encode] using this

/-- How octets fail to be text. -/
inductive Fault where
  /-- No text starts like the `length` octets at `position`. -/
  | invalid (length position : Nat)
  /-- The octets end inside the character at `position`. -/
  | incomplete (position : Nat)
deriving DecidableEq

/-- The wording of a fault. -/
def Fault.message : Fault → String
  | .invalid n i => s!"invalid utf-8 sequence of {n} bytes from index {i}"
  | .incomplete i => s!"incomplete utf-8 byte sequence from index {i}"

/-- How many octets follow a first octet, and between which bounds the second one lies. -/
def following (b : UInt8) : Option (Nat × UInt8 × UInt8) :=
  if b ≤ 0x7f then some (0, 0, 0)
  else if b < 0xc2 then none
  else if b ≤ 0xdf then some (1, 0x80, 0xbf)
  else if b = 0xe0 then some (2, 0xa0, 0xbf)
  else if b = 0xed then some (2, 0x80, 0x9f)
  else if b ≤ 0xef then some (2, 0x80, 0xbf)
  else if b = 0xf0 then some (3, 0x90, 0xbf)
  else if b ≤ 0xf3 then some (3, 0x80, 0xbf)
  else if b = 0xf4 then some (3, 0x80, 0x8f)
  else none

/-- The first fault of octets from `position` on. `pending` counts the octets that the character
at `start` still needs, the next of them between `lo` and `hi`. -/
def faultFrom : Octets → (position start pending : Nat) → (lo hi : UInt8) → Option Fault
  | [], _, start, pending, _, _ => if pending = 0 then none else some (.incomplete start)
  | b :: bs, position, start, pending, lo, hi =>
    if pending = 0 then
      match following b with
      | none => some (.invalid 1 position)
      | some (n, lo, hi) => faultFrom bs (position + 1) position n lo hi
    else if lo ≤ b ∧ b ≤ hi then faultFrom bs (position + 1) start (pending - 1) 0x80 0xbf
    else some (.invalid (position - start) start)

/-- The first fault of octets, if they are not text. -/
def fault (o : Octets) : Option Fault := faultFrom o 0 0 0 0 0

end EndToEnd.Utf8
