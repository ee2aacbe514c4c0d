/-
  Blank text: white space in the sense of the Unicode property White_Space, trimming, and texts that
  hold nothing else.
-/
import EndToEnd.Octets

namespace EndToEnd.Text

/-- The characters with the property White_Space. -/
def isSpace (c : Char) : Bool :=
  let n := c.toNat
  (0x9 ≤ n && n ≤ 0xd) || n == 0x20 || n == 0x85 || n == 0xa0 || n == 0x1680 ||
    (0x2000 ≤ n && n ≤ 0x200a) || n == 0x2028 || n == 0x2029 || n == 0x202f || n == 0x205f ||
    n == 0x3000

/-- Characters without the white space on both ends. -/
def trim (cs : List Char) : List Char :=
  ((cs.dropWhile isSpace).reverse.dropWhile isSpace).reverse

/-- Whether a text holds nothing but white space. -/
def isBlank (s : String) : Bool := s.toList.all isSpace

theorem trim_eq_nil_iff {cs : List Char} : trim cs = [] ↔ cs.all isSpace = true := by
  have drop : ∀ l : List Char, l.dropWhile isSpace = [] ↔ l.all isSpace = true := by
    intro l
    induction l with
    | nil => simp
    | cons c l ih => by_cases h : isSpace c <;> simp [h, ih]
  unfold trim
  rw [List.reverse_eq_nil_iff, drop, List.all_reverse]
  constructor
  · intro h
    rw [← drop]
    cases hd : cs.dropWhile isSpace with
    | nil => rfl
    | cons c l =>
      exfalso
      have hc : isSpace c = false := by
        have := List.head?_dropWhile_not isSpace cs
        rw [hd] at this
        simpa using this
      rw [hd] at h
      simp [hc] at h
  · intro h
    rw [(drop cs).2 h]
    rfl

end EndToEnd.Text
