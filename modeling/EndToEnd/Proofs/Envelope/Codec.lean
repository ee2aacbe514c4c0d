/-
  What is taken from the front of octets are written forms, and every written form is taken back,
  whatever follows it.

  There is one equivalence for each part of the form, from numbers up to whole envelopes. Lengths are
  written with eight octets, so written parts have less than 2⁶⁴ octets or slots. The digits of a
  signature are the one part with several written forms, since they are read in either case:
  `Header.spelled` is a header as it is written with any text in their place.
-/
import EndToEnd.Envelope.Codec
import EndToEnd.Proofs.Octets
import EndToEnd.Proofs.Text.Hex

namespace EndToEnd.Envelope

variable {n k : Nat} {o rest : Octets}

@[simp] theorem takeBlock_octets (b : Block n) : takeBlock n (b.octets ++ rest) = some (b, rest) := by
  simp [takeBlock]

theorem takeBlock_eq_some {b : Block n} :
    takeBlock n o = some (b, rest) ↔ o = b.octets ++ rest := by
  constructor
  · intro h
    unfold takeBlock at h
    obtain ⟨a, ha, hp⟩ := Option.map_eq_some_iff.1 h
    injection hp with hab hrest
    rw [← hab, ← hrest, ← Block.ofOctets?_eq_some.1 ha, List.take_append_drop]
  · rintro rfl
    exact takeBlock_octets b

theorem takeNumber_eq_some {v : Nat} :
    takeNumber k o = some (v, rest) ↔ v < Nat.pow 256 k ∧ o = littleEndian k v ++ rest := by
  unfold takeNumber
  rw [Option.map_eq_some_iff]
  constructor
  · rintro ⟨⟨b, tail⟩, hb, hp⟩
    cases hp
    have hlt := ofLittleEndian_lt b.octets
    have hle := littleEndian_ofLittleEndian b.octets
    rw [b.length_octets] at hlt hle
    exact ⟨hlt, by rw [hle]; exact takeBlock_eq_some.1 hb⟩
  · rintro ⟨hv, rfl⟩
    refine ⟨(.littleEndian k v, rest), takeBlock_eq_some.2 rfl, ?_⟩
    simp only [Block.littleEndian, ofLittleEndian_littleEndian k v hv]

theorem takeOctets_eq_some {a : Octets} :
    takeOctets o = some (a, rest) ↔ Addressable a ∧ o = encodeOctets a ++ rest := by
  unfold takeOctets encodeOctets encodeLength
  constructor
  · intro h
    split at h
    · cases h
    · rename_i v tail hv
      obtain ⟨hlt, rfl⟩ := takeNumber_eq_some.1 hv
      obtain ⟨⟨b, tail'⟩, hb, hp⟩ := Option.map_eq_some_iff.1 h
      cases hp
      obtain rfl := takeBlock_eq_some.1 hb
      rw [b.length_octets, List.append_assoc]
      exact ⟨by rw [Addressable, b.length_octets]; exact hlt, rfl⟩
  · rintro ⟨ha, rfl⟩
    have hn : takeNumber 8 (littleEndian 8 a.length ++ a ++ rest) = some (a.length, a ++ rest) :=
      takeNumber_eq_some.2 ⟨ha, List.append_assoc ..⟩
    have hb := @takeBlock_octets a.length rest ⟨a, rfl⟩
    rw [hn]
    dsimp only
    rw [hb]
    rfl

theorem takeOctets_encodeOctets {a : Octets} (h : Addressable a) :
    takeOctets (encodeOctets a ++ rest) = some (a, rest) := takeOctets_eq_some.2 ⟨h, rfl⟩

/-! ## Signatures -/

/-- The octets of the digits of a signature. -/
def digits (s : Signature) : Octets := (Hex.encode s.octets).map fun c => UInt8.ofNat c.toNat

/-- The octet of a digit in lower case. All other octets stay as they are. -/
def lowerDigit (b : UInt8) : UInt8 := if 65 ≤ b ∧ b ≤ 70 then b + 32 else b

@[simp] theorem length_digits (s : Signature) : (digits s).length = 128 := by simp [digits]

theorem char_of_digit : ∀ n < 16,
    Char.ofNat (UInt8.ofNat (Hex.digit n).toNat).toNat = Hex.digit n := by
  decide

/-- Hexadecimal digits are characters of one octet. -/
theorem chars_of_hex (o : Octets) :
    ((Hex.encode o).map fun c => UInt8.ofNat c.toNat).map (fun b => Char.ofNat b.toNat) =
      Hex.encode o := by
  rw [List.map_map]
  conv => rhs; rw [← List.map_id (Hex.encode o)]
  refine List.map_congr_left fun c hc => ?_
  obtain ⟨b, -, hb⟩ := List.mem_flatMap.1 hc
  have hlt := b.toNat_lt
  rcases List.mem_cons.1 hb with rfl | hb
  · exact char_of_digit _ (by omega)
  · rw [List.mem_singleton.1 hb]
    exact char_of_digit _ (by omega)

theorem lower_of_octet : ∀ n < 256, Hex.lower (Char.ofNat (UInt8.ofNat n).toNat) =
    Char.ofNat (lowerDigit (UInt8.ofNat n)).toNat := by
  decide +kernel

theorem toNat_of_octet : ∀ n < 256, (Char.ofNat (UInt8.ofNat n).toNat).toNat = n := by
  decide +kernel

/-- Octets are digits of a signature, in either case, if these are what they are in lower case. -/
theorem decode_digits_iff {text : Octets} {s : Signature} :
    Hex.decode (text.map fun b => Char.ofNat b.toNat) = .ok s.octets ↔
      text.map lowerDigit = digits s := by
  have hlower : (text.map fun b => Char.ofNat b.toNat).map Hex.lower =
      (text.map lowerDigit).map fun b => Char.ofNat b.toNat := by
    rw [List.map_map, List.map_map]
    refine List.map_congr_left fun b _ => ?_
    have h := lower_of_octet b.toNat b.toNat_lt
    rw [UInt8.ofNat_toNat] at h
    exact h
  have hinj : Function.Injective fun b : UInt8 => Char.ofNat b.toNat := by
    intro a b hab
    have ha := toNat_of_octet a.toNat a.toNat_lt
    have hb := toNat_of_octet b.toNat b.toNat_lt
    rw [UInt8.ofNat_toNat] at ha hb
    rw [← UInt8.toNat_inj, ← ha, ← hb]
    exact congrArg Char.toNat hab
  rw [Hex.decode_eq_ok_iff, hlower, ← chars_of_hex s.octets]
  exact ⟨fun h => List.map_inj_right hinj |>.1 h, fun h => congrArg _ h⟩

/-- The digits are written in lower case. -/
theorem map_lowerDigit_digits (s : Signature) : (digits s).map lowerDigit = digits s := by
  rw [← decode_digits_iff, digits, chars_of_hex, Hex.decode_encode]

theorem takeSignature_eq_some {s : Signature} :
    takeSignature o = some (s, rest) ↔
      ∃ text, text.map lowerDigit = digits s ∧ o = encodeOctets text ++ rest := by
  unfold takeSignature
  constructor
  · intro h
    split at h
    · cases h
    · rename_i text tail ht
      obtain ⟨-, rfl⟩ := takeOctets_eq_some.1 ht
      split at h
      · cases h
      · rename_i octets hd
        obtain ⟨b, hb, hp⟩ := Option.map_eq_some_iff.1 h
        cases hp
        obtain rfl := Block.ofOctets?_eq_some.1 hb
        exact ⟨text, decode_digits_iff.1 hd, rfl⟩
  · rintro ⟨text, ht, rfl⟩
    have hlower : (text.map lowerDigit).length = text.length := List.length_map ..
    have hlength : text.length = 128 := by rw [← hlower, ht, length_digits]
    rw [takeOctets_encodeOctets (by rw [Addressable, hlength]; decide)]
    dsimp only
    rw [decode_digits_iff.2 ht]
    simp

theorem takeSignature_encodeSignature (s : Signature) :
    takeSignature (encodeSignature s ++ rest) = some (s, rest) :=
  takeSignature_eq_some.2 ⟨digits s, map_lowerDigit_digits s, rfl⟩

/-! ## Headers -/

theorem takeOption_eq_some {α : Type} {take : Take α} {a? : Option α} :
    takeOption take o = some (a?, rest) ↔ (a? = none ∧ o = 0 :: rest) ∨
      ∃ a tail, a? = some a ∧ o = 1 :: tail ∧ take tail = some (a, rest) := by
  constructor
  · intro h
    unfold takeOption at h
    split at h
    · cases h
      exact .inl ⟨rfl, rfl⟩
    · rename_i tail
      obtain ⟨⟨a, tail'⟩, ha, hp⟩ := Option.map_eq_some_iff.1 h
      cases hp
      exact .inr ⟨a, tail, rfl, rfl, ha⟩
    · cases h
  · rintro (⟨rfl, rfl⟩ | ⟨a, tail, rfl, rfl, ha⟩)
    · rfl
    · show (take tail).map _ = _
      rw [ha]
      rfl

theorem takeOption_block_eq_some {b? : Option (Block n)} :
    takeOption (takeBlock n) o = some (b?, rest) ↔
      o = encodeOption (fun b : Block n => b.octets) b? ++ rest := by
  rw [takeOption_eq_some]
  constructor
  · rintro (⟨rfl, rfl⟩ | ⟨b, tail, rfl, rfl, hb⟩)
    · rfl
    · rw [takeBlock_eq_some.1 hb]
      rfl
  · rintro rfl
    cases b? with
    | none => exact .inl ⟨rfl, rfl⟩
    | some b => exact .inr ⟨b, _, rfl, rfl, takeBlock_octets b⟩

theorem takeOption_signature_eq_some {s? : Option Signature} :
    takeOption takeSignature o = some (s?, rest) ↔
      ∃ text, (∀ s ∈ s?, text.map lowerDigit = digits s) ∧
        o = encodeOption (fun _ => encodeOctets text) s? ++ rest := by
  rw [takeOption_eq_some]
  constructor
  · rintro (⟨rfl, rfl⟩ | ⟨s, tail, rfl, rfl, hs⟩)
    · exact ⟨[], nofun, rfl⟩
    · obtain ⟨text, ht, rfl⟩ := takeSignature_eq_some.1 hs
      exact ⟨text, fun _ h => Option.some.inj h ▸ ht, rfl⟩
  · rintro ⟨text, ht, rfl⟩
    cases s? with
    | none => exact .inl ⟨rfl, rfl⟩
    | some s => exact .inr ⟨s, _, rfl, rfl, takeSignature_eq_some.2 ⟨text, ht s rfl, rfl⟩⟩

theorem takeSlot_eq_some {s : Slot} :
    takeSlot o = some (s, rest) ↔ Addressable s.wrapped ∧ o = s.encode ++ rest := by
  unfold takeSlot Slot.encode
  simp only [Option.bind_eq_bind, Option.bind_eq_some_iff, Prod.exists, takeBlock_eq_some,
    takeOctets_eq_some]
  constructor
  · rintro ⟨keyId, _, rfl, nonce, _, rfl, wrapped, tail, ⟨ha, rfl⟩, hp⟩
    cases hp
    refine ⟨ha, ?_⟩
    rw [List.append_assoc, List.append_assoc]
  · rintro ⟨ha, rfl⟩
    refine ⟨s.keyId, _, ?_, s.nonce, _, rfl, s.wrapped, rest, ⟨ha, rfl⟩, rfl⟩
    rw [List.append_assoc, List.append_assoc]

/-- Slots are taken one by one, as many as are asked for. -/
theorem takeSlots_eq_some {slots : List Slot} :
    takeSlots n o = some (slots, rest) ↔ n = slots.length ∧
      (∀ s ∈ slots, Addressable s.wrapped) ∧ o = slots.flatMap Slot.encode ++ rest := by
  induction n generalizing o slots with
  | zero =>
    rw [takeSlots, Option.some.injEq, Prod.mk.injEq]
    constructor
    · rintro ⟨rfl, rfl⟩
      exact ⟨rfl, nofun, rfl⟩
    · rintro ⟨hn, -, rfl⟩
      rw [List.length_eq_zero_iff.1 hn.symm]
      exact ⟨rfl, rfl⟩
  | succ n ih =>
    rw [takeSlots]
    constructor
    · intro h
      split at h
      · cases h
      · rename_i s tail hs
        obtain ⟨ha, rfl⟩ := takeSlot_eq_some.1 hs
        obtain ⟨⟨ss, tail'⟩, hss, hp⟩ := Option.map_eq_some_iff.1 h
        cases hp
        obtain ⟨rfl, hall, rfl⟩ := ih.1 hss
        refine ⟨rfl, List.forall_mem_cons.2 ⟨ha, hall⟩, ?_⟩
        rw [List.flatMap_cons, List.append_assoc]
    · rintro ⟨hn, hall, rfl⟩
      cases slots with
      | nil => cases hn
      | cons s slots =>
        obtain ⟨ha, hall⟩ := List.forall_mem_cons.1 hall
        rw [List.flatMap_cons, List.append_assoc, takeSlot_eq_some.2 ⟨ha, rfl⟩]
        dsimp only
        rw [ih.2 ⟨Nat.succ.inj hn, hall, rfl⟩]
        rfl

theorem Mode.ofNumber?_eq_some {v : Nat} {m : Mode} : Mode.ofNumber? v = some m ↔ v = m.number := by
  constructor
  · intro h
    unfold Mode.ofNumber? at h
    split at h <;> cases h <;> rfl
  · rintro rfl
    exact Mode.ofNumber?_number m

/-- A header whose lengths fit into eight octets. -/
structure Header.Fits (h : Header) : Prop where
  slots : h.slots.length < 256 ^ 8
  wrapped : ∀ s ∈ h.slots, Addressable s.wrapped

/-- A header as it is written with a text in place of the digits of its signature, if it has one. -/
def Header.spelled (h : Header) (text : Octets) : Octets :=
  h.version :: (littleEndian 4 h.mode.number ++ (h.ephemeral.octets ++
    (encodeLength h.slots.length ++ (h.slots.flatMap Slot.encode ++
      (encodeOption (fun id : KeyId => id.octets) h.signerId ++
        encodeOption (fun _ => encodeOctets text) h.signature)))))

/-- The digits of the signature of a header, if it has one. -/
def Header.digits (h : Header) : Octets := (h.signature.map Envelope.digits).getD []

theorem Header.spelled_digits (h : Header) : h.spelled h.digits = h.encode := by
  unfold Header.spelled Header.encode Header.digits
  cases h.signature <;> rfl

theorem Header.spelled_append (h : Header) (text : Octets) :
    h.spelled text ++ rest = h.version :: (littleEndian 4 h.mode.number ++ (h.ephemeral.octets ++
      (littleEndian 8 h.slots.length ++ (h.slots.flatMap Slot.encode ++
        (encodeOption (fun id : KeyId => id.octets) h.signerId ++
          (encodeOption (fun _ => encodeOctets text) h.signature ++ rest)))))) := by
  simp only [Header.spelled, List.cons_append, List.append_assoc, encodeLength]

/-- What is taken for a header is one, with the digits of its signature in either case. -/
theorem takeHeader_eq_some {h : Header} :
    takeHeader o = some (h, rest) ↔ h.Fits ∧
      ∃ text, (∀ s ∈ h.signature, text.map lowerDigit = Envelope.digits s) ∧
        o = h.spelled text ++ rest := by
  cases o with
  | nil => exact ⟨nofun, fun ⟨_, _, _, ho⟩ => nomatch ho⟩
  | cons version o =>
    rw [takeHeader]
    simp only [Option.bind_eq_bind, Option.bind_eq_some_iff, Prod.exists, takeNumber_eq_some,
      Mode.ofNumber?_eq_some, takeBlock_eq_some, takeSlots_eq_some, takeOption_block_eq_some,
      takeOption_signature_eq_some]
    constructor
    · rintro ⟨_, _, ⟨-, rfl⟩, mode, rfl, ephemeral, _, rfl, _, _, ⟨hcount, rfl⟩, slots, _,
        ⟨rfl, hall, rfl⟩, signerId, _, rfl, signature, _, ⟨text, ht, rfl⟩, hp⟩
      cases hp
      refine ⟨⟨hcount, hall⟩, text, ht, ?_⟩
      rw [Header.spelled_append]
    · rintro ⟨hf, text, ht, ho⟩
      have hmode : h.mode.number < Nat.pow 256 4 := by cases h.mode <;> decide
      rw [Header.spelled_append] at ho
      injection ho with hversion ho
      subst hversion ho
      exact ⟨_, _, ⟨hmode, rfl⟩, h.mode, rfl, h.ephemeral, _, rfl, _, _, ⟨hf.slots, rfl⟩, h.slots, _,
        ⟨rfl, hf.wrapped, rfl⟩, h.signerId, _, rfl, h.signature, _, ⟨text, ht, rfl⟩, rfl⟩

theorem Header.lower_digits (h : Header) :
    ∀ s ∈ h.signature, h.digits.map lowerDigit = Envelope.digits s := by
  intro s hs
  have hdigits : h.digits = Envelope.digits s := by
    rw [Header.digits, show h.signature = some s from hs]
    rfl
  rw [hdigits, map_lowerDigit_digits]

/-- A header is read back from its octets. -/
theorem takeHeader_encode {h : Header} (hf : h.Fits) :
    takeHeader (h.encode ++ rest) = some (h, rest) :=
  takeHeader_eq_some.2 ⟨hf, h.digits, h.lower_digits, by rw [h.spelled_digits]⟩

/-- The octets of slots are at least as many as the slots, and as those of each locked key. -/
theorem length_slots (slots : List Slot) :
    slots.length ≤ (slots.flatMap Slot.encode).length ∧
      ∀ s ∈ slots, s.wrapped.length ≤ (slots.flatMap Slot.encode).length := by
  induction slots with
  | nil => exact ⟨Nat.le_refl _, nofun⟩
  | cons s slots ih =>
    have hs : s.wrapped.length + 1 ≤ s.encode.length := by
      simp only [Slot.encode, encodeOctets, List.length_append, Block.length_octets]
      omega
    rw [List.flatMap_cons, List.length_append, List.length_cons]
    refine ⟨by omega, fun t ht => ?_⟩
    rcases List.mem_cons.1 ht with rfl | ht
    · omega
    · have := ih.2 t ht
      omega

/-- A header fits whose octets do. -/
theorem Header.fits_of_length {h : Header} (hl : h.encode.length < 256 ^ 8) : h.Fits := by
  obtain ⟨hcount, hslot⟩ := length_slots h.slots
  have hle : (h.slots.flatMap Slot.encode).length ≤ h.encode.length := by
    simp only [Header.encode, List.length_cons, List.length_append]
    omega
  refine ⟨by omega, fun s hs => ?_⟩
  have := hslot s hs
  unfold Addressable
  omega

/-! ## Envelopes -/

/-- An envelope as it is written with a text in place of the digits of its signature. -/
def spelled (e : Envelope) (text : Octets) : Octets :=
  e.header.spelled text ++ (e.nonce.octets ++ encodeOctets e.body)

/-- What is taken for an envelope is one, with the digits of its signature in either case. -/
theorem takeEnvelope_eq_some {e : Envelope} :
    takeEnvelope o = some (e, rest) ↔ e.header.Fits ∧ Addressable e.body ∧
      ∃ text, (∀ s ∈ e.header.signature, text.map lowerDigit = digits s) ∧
        o = spelled e text ++ rest := by
  unfold takeEnvelope spelled
  simp only [Option.bind_eq_bind, Option.bind_eq_some_iff, Prod.exists, takeHeader_eq_some,
    takeBlock_eq_some, takeOctets_eq_some]
  constructor
  · rintro ⟨header, _, ⟨hf, text, ht, rfl⟩, nonce, _, rfl, body, _, ⟨hb, rfl⟩, hp⟩
    cases hp
    refine ⟨hf, hb, text, ht, ?_⟩
    rw [List.append_assoc, List.append_assoc]
  · rintro ⟨hf, hb, text, ht, rfl⟩
    refine ⟨e.header, _, ⟨hf, text, ht, ?_⟩, e.nonce, _, rfl, e.body, _, ⟨hb, rfl⟩, rfl⟩
    rw [List.append_assoc, List.append_assoc]

theorem spelled_digits (e : Envelope) : spelled e e.header.digits = encode e := by
  rw [spelled, encode, e.header.spelled_digits]

/-- An envelope of the current version is found at the front of octets. -/
theorem decode_encode {e : Envelope} (hv : e.header.version = currentVersion) (hf : e.header.Fits)
    (hb : Addressable e.body) : decode (encode e ++ rest) = .ok e := by
  have htake : takeEnvelope (encode e ++ rest) = some (e, rest) :=
    takeEnvelope_eq_some.2 ⟨hf, hb, e.header.digits, e.header.lower_digits, by rw [spelled_digits]⟩
  unfold decode
  rw [htake]
  exact if_pos hv

/-- An envelope fits whose octets do. -/
theorem fits_of_length {e : Envelope} (hl : (encode e).length < 256 ^ 8) :
    e.header.Fits ∧ Addressable e.body := by
  unfold encode encodeOctets at hl
  rw [List.length_append, List.length_append, List.length_append] at hl
  refine ⟨Header.fits_of_length (by omega), ?_⟩
  unfold Addressable
  omega

end EndToEnd.Envelope
