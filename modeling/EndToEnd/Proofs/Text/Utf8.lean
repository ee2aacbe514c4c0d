/-
  The octets of text, character by character.
-/
import EndToEnd.Text.Utf8

namespace EndToEnd.Utf8

/-- The octets of characters. -/
def octets (cs : List Char) : Octets := cs.flatMap String.utf8EncodeChar

@[simp] theorem octets_nil : octets [] = [] := rfl

theorem octets_cons (c : Char) (cs : List Char) :
    octets (c :: cs) = String.utf8EncodeChar c ++ octets cs := by
  rw [octets, List.flatMap_cons, octets]

theorem octets_append (cs ds : List Char) : octets (cs ++ ds) = octets cs ++ octets ds := by
  rw [octets, List.flatMap_append, octets, octets]

theorem encode_ofList (cs : List Char) : encode (String.ofList cs) = octets cs := by
  unfold encode octets
  rw [String.toUTF8, String.toByteArray_ofList, List.utf8Encode, List.data_toByteArray]

theorem encode_eq_octets (s : String) : encode s = octets s.toList := by
  rw [← encode_ofList, String.ofList_toList]

/-- A text has no more characters than octets. -/
theorem length_le_encode (s : String) : s.toList.length ≤ (encode s).length := by
  rw [encode_eq_octets]
  induction s.toList with
  | nil => exact Nat.le_refl _
  | cons c cs ih =>
    have hpos := c.utf8Size_pos
    rw [octets_cons, List.length_append, List.length_cons, String.length_utf8EncodeChar]
    omega

/-- Characters of seven bits are written as themselves. -/
theorem utf8EncodeChar_of_lt {c : Char} (h : c.toNat < 128) :
    String.utf8EncodeChar c = [UInt8.ofNat c.toNat] := by
  unfold String.utf8EncodeChar
  exact if_pos (by unfold Char.toNat at h; omega)

/-- All other characters are written with octets from 128 on. -/
theorem le_of_mem_utf8EncodeChar {c : Char} (h : 128 ≤ c.toNat) {b : UInt8}
    (hb : b ∈ String.utf8EncodeChar c) : 128 ≤ b.toNat := by
  have hv : c.val.toNat = c.toNat := rfl
  unfold String.utf8EncodeChar at hb
  dsimp only at hb
  rw [hv, if_neg (by omega)] at hb
  split at hb
  · simp only [List.mem_cons, List.not_mem_nil, or_false] at hb
    rcases hb with rfl | rfl <;> rw [UInt8.toNat_ofNat'] <;> omega
  split at hb
  · simp only [List.mem_cons, List.not_mem_nil, or_false] at hb
    rcases hb with rfl | rfl | rfl <;> rw [UInt8.toNat_ofNat'] <;> omega
  · simp only [List.mem_cons, List.not_mem_nil, or_false] at hb
    rcases hb with rfl | rfl | rfl | rfl <;> rw [UInt8.toNat_ofNat'] <;> omega

end EndToEnd.Utf8
