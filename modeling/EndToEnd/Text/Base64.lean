/-
  Base64 in the standard alphabet (RFC 4648, section 4), with padding.

  Reading accepts the written forms and nothing else: padding is required and bits left over must
  be zero. `decode?_eq_some_iff` says so.
-/
import EndToEnd.Octets

namespace EndToEnd.Base64

/-- The character of a value below 64. -/
def symbol (n : Nat) : Char :=
  if n < 26 then Char.ofNat (65 + n)
  else if n < 52 then Char.ofNat (71 + n)
  else if n < 62 then Char.ofNat (n - 4)
  else if n = 62 then '+'
  else '/'

/-- The value of a character of the alphabet. -/
def value? (c : Char) : Option Nat :=
  let n := c.toNat
  if 65 ≤ n ∧ n ≤ 90 then some (n - 65)
  else if 97 ≤ n ∧ n ≤ 122 then some (n - 71)
  else if 48 ≤ n ∧ n ≤ 57 then some (n + 4)
  else if n = 43 then some 62
  else if n = 47 then some 63
  else none

/-- The written form of octets: four characters for each three of them. -/
def encode : Octets → List Char
  | [] => []
  | [a] => [symbol (a.toNat / 4), symbol (a.toNat % 4 * 16), '=', '=']
  | [a, b] => [symbol (a.toNat / 4), symbol (a.toNat % 4 * 16 + b.toNat / 16),
      symbol (b.toNat % 16 * 4), '=']
  | a :: b :: c :: rest =>
    symbol (a.toNat / 4) :: symbol (a.toNat % 4 * 16 + b.toNat / 16) ::
      symbol (b.toNat % 16 * 4 + c.toNat / 64) :: symbol (c.toNat % 64) :: encode rest

/-- The octets of one group of four characters, the last group of a text if it is padded. -/
def group? (a b c d : Char) (isLast : Bool) : Option Octets :=
  match value? a, value? b with
  | some x, some y =>
    if isLast ∧ c = '=' ∧ d = '=' then
      if y % 16 = 0 then some [UInt8.ofNat (x * 4 + y / 16)] else none
    else
      match value? c with
      | none => none
      | some z =>
        if isLast ∧ d = '=' then
          if z % 4 = 0 then
            some [UInt8.ofNat (x * 4 + y / 16), UInt8.ofNat (y % 16 * 16 + z / 4)]
          else none
        else
          match value? d with
          | none => none
          | some w => some [UInt8.ofNat (x * 4 + y / 16), UInt8.ofNat (y % 16 * 16 + z / 4),
              UInt8.ofNat (z % 4 * 64 + w)]
  | _, _ => none

/-- The octets that characters stand for, if they are a written form. -/
def decode? : List Char → Option Octets
  | [] => some []
  | a :: b :: c :: d :: rest =>
    match group? a b c d rest.isEmpty with
    | none => none
    | some o => (decode? rest).map (o ++ ·)
  | _ => none

/-- The text of octets. -/
def text (o : Octets) : String := String.ofList (encode o)

theorem value?_symbol : ∀ n < 64, value? (symbol n) = some n := by decide

theorem symbol_ne_pad : ∀ n < 64, symbol n ≠ '=' := by decide

theorem value?_lt {c : Char} {n : Nat} (h : value? c = some n) : n < 64 := by
  unfold value? at h
  simp only at h
  split at h
  · simp at h; omega
  split at h
  · simp at h; omega
  split at h
  · simp at h; omega
  split at h
  · simp at h; omega
  split at h
  · simp at h; omega
  · cases h

theorem eq_symbol_of_value? {c : Char} {n : Nat} (h : value? c = some n) : c = symbol n := by
  have key : ∀ m, c.toNat = m → c = Char.ofNat m := by
    rintro m rfl; exact (Char.ofNat_toNat c).symm
  unfold value? at h
  simp only at h
  split at h
  · rename_i hc
    have hn : n = c.toNat - 65 := by simpa using h.symm
    have : symbol n = Char.ofNat (65 + n) := by unfold symbol; rw [if_pos (by omega)]
    rw [this]; exact key _ (by omega)
  split at h
  · rename_i hc
    have hn : n = c.toNat - 71 := by simpa using h.symm
    have : symbol n = Char.ofNat (71 + n) := by
      unfold symbol; rw [if_neg (by omega), if_pos (by omega)]
    rw [this]; exact key _ (by omega)
  split at h
  · rename_i hc
    have hn : n = c.toNat + 4 := by simpa using h.symm
    have : symbol n = Char.ofNat (n - 4) := by
      unfold symbol; rw [if_neg (by omega), if_neg (by omega), if_pos (by omega)]
    rw [this]; exact key _ (by omega)
  split at h
  · rename_i hc
    cases h
    exact key _ hc
  split at h
  · rename_i hc
    cases h
    exact key _ hc
  · cases h

private theorem ofNat_of {a : UInt8} {n : Nat} (h : n = a.toNat) : UInt8.ofNat n = a := by
  subst h; exact UInt8.ofNat_toNat

/-- What was written is read back. -/
theorem decode?_encode (o : Octets) : decode? (encode o) = some o := by
  induction o using encode.induct with
  | case1 => rfl
  | case2 a =>
    have ha := a.toNat_lt
    have h1 := value?_symbol (a.toNat / 4) (by omega)
    have h2 := value?_symbol (a.toNat % 4 * 16) (by omega)
    simp only [encode, decode?, group?, h1, h2, List.isEmpty_nil, and_self, if_true]
    rw [if_pos (by omega), ofNat_of (a := a) (by omega)]
    rfl
  | case3 a b =>
    have ha := a.toNat_lt
    have hb := b.toNat_lt
    have h1 := value?_symbol (a.toNat / 4) (by omega)
    have h2 := value?_symbol (a.toNat % 4 * 16 + b.toNat / 16) (by omega)
    have h3 := value?_symbol (b.toNat % 16 * 4) (by omega)
    have n3 := symbol_ne_pad (b.toNat % 16 * 4) (by omega)
    simp only [encode, decode?, group?, h1, h2, h3, n3, List.isEmpty_nil, and_self, if_true,
      false_and, and_false, if_false]
    rw [if_pos (by omega), ofNat_of (a := a) (by omega), ofNat_of (a := b) (by omega)]
    rfl
  | case4 a b c rest ih =>
    have ha := a.toNat_lt
    have hb := b.toNat_lt
    have hc := c.toNat_lt
    have h1 := value?_symbol (a.toNat / 4) (by omega)
    have h2 := value?_symbol (a.toNat % 4 * 16 + b.toNat / 16) (by omega)
    have h3 := value?_symbol (b.toNat % 16 * 4 + c.toNat / 64) (by omega)
    have h4 := value?_symbol (c.toNat % 64) (by omega)
    have n3 := symbol_ne_pad (b.toNat % 16 * 4 + c.toNat / 64) (by omega)
    have n4 := symbol_ne_pad (c.toNat % 64) (by omega)
    simp only [encode, decode?, group?, h1, h2, h3, h4, n3, n4, and_false, if_false, ih]
    rw [ofNat_of (a := a) (by omega), ofNat_of (a := b) (by omega), ofNat_of (a := c) (by omega)]
    rfl

private theorem toNat_of {n : Nat} (h : n < 256) : (UInt8.ofNat n).toNat = n := by
  rw [UInt8.toNat_ofNat']; omega

section Groups

variable {x y z w : Nat} (hx : x < 64) (hy : y < 64)
include hx hy

private theorem encode_one (h : y % 16 = 0) :
    encode [UInt8.ofNat (x * 4 + y / 16)] = [symbol x, symbol y, '=', '='] := by
  have ta := toNat_of (n := x * 4 + y / 16) (by omega)
  have ex : (x * 4 + y / 16) / 4 = x := by omega
  have ey : (x * 4 + y / 16) % 4 * 16 = y := by omega
  simp only [encode, ta, ex, ey]

private theorem encode_two (hz : z < 64) (h : z % 4 = 0) :
    encode [UInt8.ofNat (x * 4 + y / 16), UInt8.ofNat (y % 16 * 16 + z / 4)] =
      [symbol x, symbol y, symbol z, '='] := by
  have ta := toNat_of (n := x * 4 + y / 16) (by omega)
  have tb := toNat_of (n := y % 16 * 16 + z / 4) (by omega)
  have ex : (x * 4 + y / 16) / 4 = x := by omega
  have ey : (x * 4 + y / 16) % 4 * 16 + (y % 16 * 16 + z / 4) / 16 = y := by omega
  have ez : (y % 16 * 16 + z / 4) % 16 * 4 = z := by omega
  simp only [encode, ta, tb, ex, ey, ez]

private theorem encode_three (hz : z < 64) (hw : w < 64) (rest : Octets) :
    encode (UInt8.ofNat (x * 4 + y / 16) :: UInt8.ofNat (y % 16 * 16 + z / 4) ::
        UInt8.ofNat (z % 4 * 64 + w) :: rest) =
      symbol x :: symbol y :: symbol z :: symbol w :: encode rest := by
  have ta := toNat_of (n := x * 4 + y / 16) (by omega)
  have tb := toNat_of (n := y % 16 * 16 + z / 4) (by omega)
  have tc := toNat_of (n := z % 4 * 64 + w) (by omega)
  have ex : (x * 4 + y / 16) / 4 = x := by omega
  have ey : (x * 4 + y / 16) % 4 * 16 + (y % 16 * 16 + z / 4) / 16 = y := by omega
  have ez : (y % 16 * 16 + z / 4) % 16 * 4 + (z % 4 * 64 + w) / 64 = z := by omega
  have ew : (z % 4 * 64 + w) % 64 = w := by omega
  simp only [encode, ta, tb, tc, ex, ey, ez, ew]

end Groups

/-- Octets that a group stands for are written as this group, and a padded group ends the text. -/
theorem encode_of_group? {a b c d : Char} {isLast : Bool} {o r : Octets}
    (h : group? a b c d isLast = some o) (hr : isLast = true → r = []) :
    encode (o ++ r) = a :: b :: c :: d :: encode r := by
  unfold group? at h
  split at h
  · rename_i x y hx hy
    rw [eq_symbol_of_value? hx, eq_symbol_of_value? hy]
    split at h
    · rename_i hp
      obtain ⟨hl, rfl, rfl⟩ := hp
      obtain rfl := hr hl
      split at h
      · rename_i h0
        cases h
        rw [List.append_nil, encode_one (value?_lt hx) (value?_lt hy) h0]
        rfl
      · cases h
    · split at h
      · cases h
      · rename_i z hz
        rw [eq_symbol_of_value? hz]
        split at h
        · rename_i hp
          obtain ⟨hl, rfl⟩ := hp
          obtain rfl := hr hl
          split at h
          · rename_i h0
            cases h
            rw [List.append_nil, encode_two (value?_lt hx) (value?_lt hy) (value?_lt hz) h0]
            rfl
          · cases h
        · split at h
          · cases h
          · rename_i w hw
            cases h
            rw [eq_symbol_of_value? hw]
            exact encode_three (value?_lt hx) (value?_lt hy) (value?_lt hz) (value?_lt hw) r
  · cases h

theorem eq_encode_of_decode? {cs : List Char} {o : Octets} (h : decode? cs = some o) :
    cs = encode o := by
  induction cs using decode?.induct generalizing o with
  | case1 => simp only [decode?] at h; cases h; rfl
  | case2 a b c d rest hg => simp [decode?, hg] at h
  | case3 a b c d rest g hg ih =>
    simp only [decode?, hg] at h
    obtain ⟨r, hr, rfl⟩ := Option.map_eq_some_iff.1 h
    have hlast : rest.isEmpty = true → r = [] := by
      intro hempty
      rw [List.isEmpty_iff.1 hempty] at hr
      exact (Option.some.inj hr).symm
    rw [encode_of_group? hg hlast, ih hr]
  | case4 cs h1 h2 => simp [decode?] at h

/-- Exactly the written forms are read. -/
theorem decode?_eq_some_iff {cs : List Char} {o : Octets} : decode? cs = some o ↔ cs = encode o :=
  ⟨eq_encode_of_decode?, fun h => h ▸ decode?_encode o⟩

end EndToEnd.Base64
