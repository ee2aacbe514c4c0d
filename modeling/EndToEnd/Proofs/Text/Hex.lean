/-
  Hexadecimal text is read in either case, and nothing else is read.

  Characters that are no digits may be written with several octets each. What is read has none of these
  (`decode_iff_digits`), so there its octets are as many as its characters.
-/
import EndToEnd.Proofs.Text.Utf8
import EndToEnd.Text.Hex

namespace EndToEnd.Hex

variable {c : Char} {cs : List Char} {o : Octets} {n : Nat}

/-- A character whose lower-case form is a digit is that digit in either case. -/
theorem value?_of_lower (hn : n < 16) (h : lower c = digit n) : value? c = some n := by
  unfold lower at h
  cases hv : value? c with
  | none =>
    -- such a character is its own lower-case form, so it would be no digit
    rw [hv] at h
    rw [show c = digit n from h, value?_digit n hn] at hv
    cases hv
  | some m =>
    rw [hv] at h
    have hm := value?_digit m (value?_lt hv)
    rw [show digit m = digit n from h, value?_digit n hn] at hm
    exact hm.symm

theorem utf8Size_of_value? (h : value? c = some n) : c.utf8Size = 1 := by
  have hlt : c.toNat ≤ 127 := by
    unfold value? at h
    simp only at h
    split at h
    · omega
    split at h
    · omega
    split at h
    · omega
    · cases h
  refine Char.utf8Size_eq_one_iff.2 (UInt32.le_iff_toNat_le.2 ?_)
  exact hlt

/-- Characters are taken two at a time where their lower-case forms are written octets. -/
theorem decodePairs_of_lower (h : cs.map lower = encode o) (i : Nat) :
    decodePairs cs i = .ok o ∧ writtenLength cs = 2 * o.length := by
  induction o generalizing cs i with
  | nil =>
    rw [List.map_eq_nil_iff.1 h]
    exact ⟨rfl, rfl⟩
  | cons b o ih =>
    have hb := b.toNat_lt
    have he : encode (b :: o) = digit (b.toNat / 16) :: digit (b.toNat % 16) :: encode o := rfl
    rw [he] at h
    obtain ⟨c, cs, rfl, hc, h⟩ := List.map_eq_cons_iff.1 h
    obtain ⟨d, cs, rfl, hd, h⟩ := List.map_eq_cons_iff.1 h
    have hx := value?_of_lower (by omega) hc
    have hy := value?_of_lower (by omega) hd
    obtain ⟨hpairs, hlength⟩ := ih h (i + 2)
    have hv : UInt8.ofNat (16 * (b.toNat / 16) + b.toNat % 16) = b := by
      apply UInt8.toNat_inj.mp
      rw [UInt8.toNat_ofNat']
      omega
    constructor
    · simp only [decodePairs, hx, hy, hpairs, hv]
    · simp only [writtenLength, utf8Size_of_value? hx, utf8Size_of_value? hy, hlength,
        List.length_cons]
      omega

/-- Characters stand for octets if they are the digits of these, in either case. -/
theorem decode_eq_ok_iff : decode cs = .ok o ↔ cs.map lower = encode o := by
  constructor
  · exact fun h => (encode_of_decode h).symm
  · intro h
    obtain ⟨hpairs, hlength⟩ := decodePairs_of_lower h 0
    unfold decode
    rw [if_neg (by omega), hpairs]

theorem text_inj {a b : Octets} (h : text a = text b) : a = b := by
  have hread := decode_encode a
  rw [String.ofList_injective h, decode_encode] at hread
  exact (Except.ok.inj hread).symm

/-! ## Digits -/

/-- A hexadecimal digit, in either case. -/
def IsDigit (c : Char) : Prop :=
  ('0' ≤ c ∧ c ≤ '9') ∨ ('a' ≤ c ∧ c ≤ 'f') ∨ ('A' ≤ c ∧ c ≤ 'F')

instance : DecidablePred IsDigit := fun _ => inferInstanceAs (Decidable (_ ∨ _))

theorem isDigit_iff_toNat : IsDigit c ↔ (48 ≤ c.toNat ∧ c.toNat ≤ 57) ∨
    (97 ≤ c.toNat ∧ c.toNat ≤ 102) ∨ (65 ≤ c.toNat ∧ c.toNat ≤ 70) := Iff.rfl

theorem isDigit_iff : IsDigit c ↔ ∃ n, value? c = some n := by
  rw [isDigit_iff_toNat]
  unfold value?
  dsimp only
  split
  · simp_all
  split
  · simp_all
  split <;> simp_all

theorem lower_ofNat : ∀ n < 103, IsDigit (Char.ofNat n) →
    lower (Char.ofNat n) = (Char.ofNat n).toLower := by
  decide

theorem lower_of_isDigit (h : IsDigit c) : lower c = c.toLower := by
  have hlt : c.toNat < 103 := by
    rw [isDigit_iff_toNat] at h
    omega
  have hlower := lower_ofNat c.toNat hlt
  rw [Char.ofNat_toNat] at hlower
  exact hlower h

theorem isDigit_digit : ∀ n < 16, IsDigit (digit n) := by decide

theorem isDigit_of_mem_encode (h : c ∈ encode o) : IsDigit c := by
  obtain ⟨b, -, hc⟩ := List.mem_flatMap.1 h
  have hb := b.toNat_lt
  rcases List.mem_cons.1 hc with rfl | hc
  · exact isDigit_digit _ (by omega)
  · rw [List.mem_singleton.1 hc]
    exact isDigit_digit _ (by omega)

/-- A character whose lower-case form is a digit is one itself. -/
theorem isDigit_of_lower (h : IsDigit (lower c)) : IsDigit c := by
  cases hv : value? c with
  | none => rwa [lower, hv] at h
  | some n => exact isDigit_iff.2 ⟨n, hv⟩

/-- Characters are read if they are digits, and as the octets that they are written for in lower case. -/
theorem decode_iff_digits :
    decode cs = .ok o ↔ (∀ c ∈ cs, IsDigit c) ∧ cs.map Char.toLower = encode o := by
  have hsame (h : ∀ c ∈ cs, IsDigit c) : cs.map lower = cs.map Char.toLower :=
    List.map_congr_left fun c hc => lower_of_isDigit (h c hc)
  rw [decode_eq_ok_iff]
  constructor
  · intro h
    have hall : ∀ c ∈ cs, IsDigit c := fun c hc =>
      isDigit_of_lower (isDigit_of_mem_encode (h ▸ List.mem_map_of_mem hc))
    exact ⟨hall, hsame hall ▸ h⟩
  · exact fun ⟨hall, h⟩ => (hsame hall).trans h

theorem writtenLength_eq (cs : List Char) : writtenLength cs = (Utf8.octets cs).length := by
  induction cs with
  | nil => rfl
  | cons c cs ih =>
    rw [writtenLength, Utf8.octets_cons, List.length_append, String.length_utf8EncodeChar, ih]

theorem writtenLength_toList (s : String) : writtenLength s.toList = s.utf8ByteSize := by
  rw [writtenLength_eq, ← Utf8.encode_eq_octets]
  exact String.size_toByteArray

theorem writtenLength_of_digits (h : ∀ c ∈ cs, IsDigit c) : writtenLength cs = cs.length := by
  induction cs with
  | nil => rfl
  | cons c cs ih =>
    obtain ⟨hc, hcs⟩ := List.forall_mem_cons.1 h
    obtain ⟨n, hn⟩ := isDigit_iff.1 hc
    rw [writtenLength, utf8Size_of_value? hn, ih hcs, List.length_cons, Nat.add_comm]

theorem exists_decodePairs (hall : ∀ c ∈ cs, IsDigit c) (heven : cs.length % 2 = 0) (i : Nat) :
    ∃ o, decodePairs cs i = .ok o := by
  induction cs, i using decodePairs.induct with
  | case1 => exact ⟨[], rfl⟩
  | case2 => simp at heven
  | case3 => simp at heven
  | case4 a b rest i ha =>
    obtain ⟨n, hn⟩ := isDigit_iff.1 (hall a List.mem_cons_self)
    cases hn.symm.trans ha
  | case5 a b rest i x hb ha =>
    obtain ⟨n, hn⟩ := isDigit_iff.1 (hall b (List.mem_cons_of_mem _ List.mem_cons_self))
    cases hn.symm.trans hb
  | case6 a b rest i x y hb ha o ho ih =>
    exact ⟨UInt8.ofNat (16 * x + y) :: o, by simp only [decodePairs, ha, hb, ho]⟩
  | case7 a b rest i x y hb ha e he ih =>
    rw [List.length_cons, List.length_cons] at heven
    obtain ⟨o, ho⟩ := ih (fun c hc => hall c (List.mem_cons_of_mem _ (List.mem_cons_of_mem _ hc)))
      (by omega)
    cases ho.symm.trans he

/-- Digits are read where their number is even. -/
theorem exists_decode (hall : ∀ c ∈ cs, IsDigit c) (heven : cs.length % 2 = 0) :
    ∃ o, decode cs = .ok o := by
  unfold decode
  rw [writtenLength_of_digits hall, if_neg (by omega)]
  exact exists_decodePairs hall heven 0

end EndToEnd.Hex
