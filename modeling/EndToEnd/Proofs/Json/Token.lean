/-
  The written forms of texts, numbers and constants are read as single tokens.

  A string is read atom by atom: each character stands for one unit or for its octets. A number ends
  where a comma or a closing bracket stands, or at the end.
-/
import EndToEnd.Json.Token
import EndToEnd.Proofs.Text.Utf8

namespace EndToEnd.Json

/-! ## Strings -/

/-- The atoms that a character is read as once it was written. -/
def atomsOf (c : Char) : List Atom :=
  if c.toNat < 32 ∧ c.toNat ∉ [8, 9, 10, 12, 13] then [.unit c.toNat]
  else (String.utf8EncodeChar c).map .octet

theorem atomsOf_of_le {c : Char} (h : 32 ≤ c.toNat) :
    atomsOf c = (String.utf8EncodeChar c).map .octet :=
  if_neg fun hc => by omega

/-- Octets that mean nothing in a string are read as they are. -/
theorem atoms_plain {bs : Octets} (h : ∀ b ∈ bs, 32 ≤ b.toNat ∧ b ≠ 34 ∧ b ≠ 92) (o : Octets)
    (acc : List Atom) : atoms (bs ++ o) acc = atoms o ((bs.map .octet).reverse ++ acc) := by
  induction bs generalizing acc with
  | nil => rfl
  | cons b bs ih =>
    obtain ⟨h32, h34, h92⟩ := h b List.mem_cons_self
    have hlow : ¬ b < 32 := by
      rw [UInt8.lt_iff_toNat_lt]
      exact Nat.not_lt.2 h32
    rw [List.cons_append, atoms.eq_def]
    dsimp only
    rw [if_neg (by simpa using h34), if_neg (by simpa using h92), if_neg hlow,
      ih fun b' hb' => h b' (List.mem_cons_of_mem _ hb')]
    simp

theorem unit?_hex : ∀ n < 32,
    unit? 48 48 (UInt8.ofNat (Hex.digit (n / 16)).toNat) (UInt8.ofNat (Hex.digit (n % 16)).toNat) =
      some n := by
  decide

theorem octets_hexDigit : ∀ n < 16,
    String.utf8EncodeChar (Hex.digit n) = [UInt8.ofNat (Hex.digit n).toNat] := by
  decide

theorem eq_ofNat {c : Char} {n : Nat} (h : c.toNat = n) : c = Char.ofNat n := by
  rw [← h, Char.ofNat_toNat]

/-- A written character is read as its atoms. -/
theorem atoms_escape (c : Char) (o : Octets) (acc : List Atom) :
    atoms (Utf8.octets (escape c) ++ o) acc = atoms o ((atomsOf c).reverse ++ acc) := by
  unfold escape
  split
  · rename_i h; subst h; rfl
  split
  · rename_i h; subst h; rfl
  split
  · rename_i h; rw [eq_ofNat h]; rfl
  split
  · rename_i h; rw [eq_ofNat h]; rfl
  split
  · rename_i h; subst h; rfl
  split
  · rename_i h; subst h; rfl
  split
  · rename_i h; subst h; rfl
  rename_i h34 h92 h8 h12 h10 h13 h9
  split
  · -- a control character without a letter of its own
    rename_i h32
    have hatoms : atomsOf c = [.unit c.toNat] := by
      refine if_pos ⟨h32, ?_⟩
      simp only [List.mem_cons, List.not_mem_nil, or_false, not_or]
      refine ⟨h8, fun h => h9 (eq_ofNat h), fun h => h10 (eq_ofNat h), h12, fun h => h13 (eq_ofNat h)⟩
    have hoctets : Utf8.octets ['\\', 'u', '0', '0', Hex.digit (c.toNat / 16), Hex.digit (c.toNat % 16)]
        = [92, 117, 48, 48, UInt8.ofNat (Hex.digit (c.toNat / 16)).toNat,
          UInt8.ofNat (Hex.digit (c.toNat % 16)).toNat] := by
      simp only [Utf8.octets, List.flatMap_cons, List.flatMap_nil,
        octets_hexDigit (c.toNat / 16) (by omega), octets_hexDigit (c.toNat % 16) (by omega)]
      rfl
    rw [hoctets, hatoms]
    show atoms (92 :: 117 :: 48 :: 48 :: _ :: _ :: o) acc = _
    rw [atoms]
    simp [unit?_hex c.toNat h32]
  · rename_i h32
    rw [Utf8.octets_cons, Utf8.octets_nil, List.append_nil, atomsOf_of_le (by omega)]
    refine atoms_plain (fun b hb => ?_) o acc
    by_cases hc : c.toNat < 128
    · rw [Utf8.utf8EncodeChar_of_lt hc, List.mem_singleton] at hb
      have hb' : b.toNat = c.toNat := by rw [hb, UInt8.toNat_ofNat']; omega
      refine ⟨by omega, ?_, ?_⟩
      · rintro rfl
        exact h34 (eq_ofNat hb'.symm)
      · rintro rfl
        exact h92 (eq_ofNat hb'.symm)
    · have hle := Utf8.le_of_mem_utf8EncodeChar (by omega) hb
      refine ⟨by omega, ?_, ?_⟩
      · rintro rfl
        exact absurd hle (by decide)
      · rintro rfl
        exact absurd hle (by decide)

/-- A written string is read up to its closing quote. -/
theorem atoms_string (cs : List Char) (o : Octets) (acc : List Atom) :
    atoms (Utf8.octets (cs.flatMap escape) ++ 34 :: o) acc =
      some (acc.reverse ++ cs.flatMap atomsOf, o) := by
  induction cs generalizing acc with
  | nil =>
    show atoms (34 :: o) acc = _
    rw [atoms.eq_def]
    simp
  | cons c cs ih =>
    rw [List.flatMap_cons, Utf8.octets_append, List.append_assoc, atoms_escape, ih]
    simp

theorem content?_octets (bs : Octets) (as : List Atom) (acc : Octets) :
    content? (bs.map .octet ++ as) acc = content? as (bs.reverse ++ acc) := by
  induction bs generalizing acc with
  | nil => rfl
  | cons b bs ih =>
    rw [List.map_cons, List.cons_append, content?, ih]
    simp

theorem charOctets_of_lt : ∀ n < 32, charOctets n = [UInt8.ofNat n] := by
  decide

/-- The unit of a control character stands for it, whatever comes next. -/
theorem content?_unit {n : Nat} (h : n < 32) (as : List Atom) (acc : Octets) :
    content? (.unit n :: as) acc = content? as (UInt8.ofNat n :: acc) := by
  have hhigh : isHigh n = false := by
    simp only [isHigh, Bool.and_eq_false_iff, decide_eq_false_iff_not]
    omega
  have hlow : isLow n = false := by
    simp only [isLow, Bool.and_eq_false_iff, decide_eq_false_iff_not]
    omega
  cases as with
  | nil => simp [content?, hhigh, hlow, charOctets_of_lt n h]
  | cons a as =>
    cases a with
    | octet b => simp [content?, hhigh, hlow, charOctets_of_lt n h]
    | unit m => simp [content?, hhigh, hlow, charOctets_of_lt n h]

/-- The atoms of a character stand for its octets. -/
theorem content?_atomsOf (c : Char) (as : List Atom) (acc : Octets) :
    content? (atomsOf c ++ as) acc = content? as ((String.utf8EncodeChar c).reverse ++ acc) := by
  unfold atomsOf
  split
  · rename_i h
    rw [List.singleton_append, content?_unit h.1, Utf8.utf8EncodeChar_of_lt (by omega)]
    rfl
  · exact content?_octets _ _ _

theorem content?_string (cs : List Char) (acc : Octets) :
    content? (cs.flatMap atomsOf) acc = some (acc.reverse ++ Utf8.octets cs) := by
  induction cs generalizing acc with
  | nil => simp [content?]
  | cons c cs ih =>
    rw [List.flatMap_cons, content?_atomsOf, ih, Utf8.octets_cons]
    simp

theorem stringToken_string (s : String) : stringToken (s.toList.flatMap atomsOf) = .text s := by
  unfold stringToken
  rw [content?_string, List.reverse_nil, List.nil_append, ← Utf8.encode_eq_octets]
  rw [Option.bind_some, Utf8.decode?_encode]

theorem octets_quote (s : String) :
    Utf8.octets (quote s) = 34 :: (Utf8.octets (s.toList.flatMap escape) ++ [34]) := by
  unfold quote
  rw [Utf8.octets_cons, Utf8.octets_append]
  rfl

/-- A token that starts with a quote is a string. -/
theorem token?_string (o : Octets) :
    token? (34 :: o) = (atoms o []).map fun (as, rest) => (stringToken as, rest) := by
  cases h : atoms o [] with
  | none => simp [token?, h]
  | some p => simp [token?, h]

/-- A quoted text is read as one token. -/
theorem token?_quote (s : String) (o : Octets) :
    token? (Utf8.octets (quote s) ++ o) = some (.text s, o) := by
  rw [octets_quote, List.cons_append, List.append_assoc, List.singleton_append, token?_string,
    atoms_string, List.reverse_nil, List.nil_append, Option.map_some]
  dsimp only
  rw [stringToken_string]

/-! ## Numbers -/

/-- What may stand behind a value: nothing, a comma or a closing bracket. -/
def Delimited : Octets → Prop
  | [] => True
  | b :: _ => b = 44 ∨ b = 93 ∨ b = 125

variable {o : Octets}

theorem Delimited.fractionRest (h : Delimited o) : fractionRest o = some (false, o) := by
  cases o with
  | nil => rfl
  | cons b o => rcases h with rfl | rfl | rfl <;> rfl

theorem Delimited.dropWhile (h : Delimited o) :
    o.dropWhile isDigit = o ∧ o.takeWhile isDigit = [] := by
  cases o with
  | nil => exact ⟨rfl, rfl⟩
  | cons b o => rcases h with rfl | rfl | rfl <;> exact ⟨rfl, rfl⟩

theorem isDigit_octet {c : Char} (h : Decimal.isDigit c = true) :
    String.utf8EncodeChar c = [UInt8.ofNat c.toNat] ∧ (UInt8.ofNat c.toNat).toNat = c.toNat ∧
      isDigit (UInt8.ofNat c.toNat) = true := by
  unfold Decimal.isDigit at h
  rw [Bool.and_eq_true, decide_eq_true_eq, decide_eq_true_eq] at h
  have hn : (UInt8.ofNat c.toNat).toNat = c.toNat := by rw [UInt8.toNat_ofNat']; omega
  refine ⟨Utf8.utf8EncodeChar_of_lt (by omega), hn, ?_⟩
  unfold isDigit
  rw [Bool.and_eq_true, decide_eq_true_eq, decide_eq_true_eq, UInt8.le_iff_toNat_le,
    UInt8.le_iff_toNat_le, hn]
  exact h

theorem octets_digits {cs : List Char} (h : cs.all Decimal.isDigit = true) :
    Utf8.octets cs = cs.map fun c => UInt8.ofNat c.toNat := by
  induction cs with
  | nil => rfl
  | cons c cs ih =>
    rw [List.all_cons, Bool.and_eq_true] at h
    rw [Utf8.octets_cons, (isDigit_octet h.1).1, ih h.2]
    rfl

/-- Digits are taken off up to where the number ends. -/
theorem takeDigits_octets {cs : List Char} (h : cs.all Decimal.isDigit = true) (ho : Delimited o) :
    takeDigits (Utf8.octets cs ++ o) = (Utf8.octets cs, o) := by
  have hall : ∀ b ∈ Utf8.octets cs, isDigit b = true := by
    intro b hb
    rw [octets_digits h] at hb
    obtain ⟨c, hc, rfl⟩ := List.mem_map.1 hb
    exact (isDigit_octet (List.all_eq_true.1 h c hc)).2.2
  obtain ⟨hdrop, htake⟩ := ho.dropWhile
  unfold takeDigits
  rw [List.takeWhile_append_of_pos hall, List.dropWhile_append_of_pos hall, hdrop, htake,
    List.append_nil]

theorem digitsValue_octets {cs : List Char} (h : cs.all Decimal.isDigit = true) :
    digitsValue (Utf8.octets cs) = Decimal.value cs := by
  unfold digitsValue Decimal.value
  rw [octets_digits h, List.foldl_map]
  generalize 0 = v
  induction cs generalizing v with
  | nil => rfl
  | cons c cs ih =>
    rw [List.all_cons, Bool.and_eq_true] at h
    rw [List.foldl_cons, List.foldl_cons, (isDigit_octet h.1).2.1]
    exact ih h.2 _

/-- The digits of a number are read as the number. -/
theorem numberToken_digits (negative : Bool) (n : Nat) (ho : Delimited o) :
    numberToken negative (Utf8.octets (Decimal.digits n) ++ o) =
      if negative then if n = 0 then some (.real, o) else some (.int (-n), o)
      else some (.int n, o) := by
  have hall := Decimal.digits_all n
  have hne : (Utf8.octets (Decimal.digits n)).isEmpty = false := by
    rw [octets_digits hall, List.isEmpty_map]
    simpa using Decimal.digits_ne_nil n
  unfold numberToken
  split
  rename_i ds rest hsplit
  have htake : (ds, rest) = (Utf8.octets (Decimal.digits n), o) := by
    rw [← hsplit]
    split
    · -- only zero has a zero in front
      rename_i more hz
      by_cases hn : n = 0
      · subst hn
        have h0 : Utf8.octets (Decimal.digits 0) = [48] := by
          rw [Decimal.digits, if_pos (by decide)]
          rfl
        rw [h0] at hz ⊢
        injection hz with _ hz
        exact Prod.ext rfl hz.symm
      · exfalso
        refine hn (Decimal.head?_digits ?_)
        cases hd : Decimal.digits n with
        | nil => exact absurd hd (Decimal.digits_ne_nil n)
        | cons c cs =>
          rw [hd, List.all_cons, Bool.and_eq_true] at hall
          rw [hd, Utf8.octets_cons, (isDigit_octet hall.1).1] at hz
          injection hz with hz _
          have hc := (isDigit_octet hall.1).2.1
          rw [hz] at hc
          rw [List.head?_cons, eq_ofNat hc.symm]
          rfl
    · exact takeDigits_octets hall ho
  cases htake
  rw [hne, if_neg Bool.false_ne_true, ho.fractionRest]
  dsimp only
  rw [digitsValue_octets hall, Decimal.value_digits]

/-- A token that starts with a digit is a number. -/
theorem token?_digit {b : UInt8} (h : isDigit b = true) (rest : Octets) :
    token? (b :: rest) = numberToken false (b :: rest) := by
  have hne : ∀ c : UInt8, isDigit c = false → (b == c) = false := by
    intro c hc
    rw [beq_eq_false_iff_ne]
    rintro rfl
    rw [h] at hc
    cases hc
  unfold token?
  dsimp only
  rw [hne 91 rfl, hne 93 rfl, hne 123 rfl, hne 125 rfl, hne 44 rfl, hne 58 rfl, hne 34 rfl,
    hne 45 rfl, h]
  rfl

/-- A whole number is read as one token. -/
theorem token?_signed (n : Int) (ho : Delimited o) :
    token? (Utf8.octets (Decimal.signed n) ++ o) = some (.int n, o) := by
  unfold Decimal.signed
  split
  · rename_i hn
    show numberToken true (Utf8.octets (Decimal.digits n.natAbs) ++ o) = _
    rw [numberToken_digits true n.natAbs ho, if_pos rfl, if_neg (by omega)]
    congr 3
    omega
  · rename_i hn
    have hnum := numberToken_digits false n.natAbs ho
    have hall := Decimal.digits_all n.natAbs
    cases hd : Decimal.digits n.natAbs with
    | nil => exact absurd hd (Decimal.digits_ne_nil _)
    | cons c cs =>
      rw [hd] at hnum hall
      rw [List.all_cons, Bool.and_eq_true] at hall
      rw [Utf8.octets_cons, (isDigit_octet hall.1).1] at hnum ⊢
      rw [List.singleton_append, List.cons_append, token?_digit (isDigit_octet hall.1).2.2]
      rw [List.singleton_append, List.cons_append] at hnum
      rw [hnum, if_neg Bool.false_ne_true]
      congr 3
      omega

end EndToEnd.Json
