/-
  Public keys and signatures as texts.

  The hexadecimal text of a key is read in either case, and no other text is. The length is asked for in
  octets and the digits are looked at afterwards; since a digit is one octet, what is left to be cut in
  two halves always has 64 of them. The JSON texts of keys and signatures are read back.

  Proved:
  * `PublicKey.ofHex_ends`: a text of 128 digits is read, and every other one is refused.
  * `PublicKey.ofHex_exact`: which key is read, and the JSON texts.
-/
import EndToEnd.Proofs.Key
import EndToEnd.Proofs.Text.Hex

namespace EndToEnd

namespace PublicKey

variable {s : String} {k : PublicKey} {o : Octets}

theorem hex_inj {k l : PublicKey} (h : k.hex = l.hex) : k = l := by
  obtain ⟨hs, he⟩ := List.append_inj (Hex.text_inj h) (by simp)
  cases k
  cases l
  rw [mk.injEq]
  exact ⟨Block.ext_octets hs, Block.ext_octets he⟩

/-- The text of a key, character by character. -/
theorem toLower_eq_hex_iff : s.toLower = k.hex ↔ s.toList.map Char.toLower = Hex.encode k.octets := by
  show s.map Char.toLower = k.hex ↔ _
  rw [← String.toList_inj, String.toList_map, hex, Hex.text, String.toList_ofList]

/-- The octets of a key, cut in two. -/
theorem exists_halves (h : o.length = 64) :
    ∃ k : PublicKey, k.octets = o ∧ Block.ofOctets? 32 (o.take 32) = some k.signing ∧
      Block.ofOctets? 32 (o.drop 32) = some k.encryption := by
  refine ⟨⟨⟨o.take 32, by simp [h]⟩, ⟨o.drop 32, by simp [h]⟩⟩, ?_, ?_, ?_⟩
  · exact List.take_append_drop 32 o
  · exact Block.ofOctets?_eq_some.2 rfl
  · exact Block.ofOctets?_eq_some.2 rfl

/-- A text of 128 hexadecimal digits. -/
def Digits (s : String) : Prop := s.length = 128 ∧ ∀ c ∈ s.toList, Hex.IsDigit c

theorem digits_iff :
    Digits s ↔ s.length = 128 ∧ s.toList.all (fun c => Hex.IsDigit c) = true := by
  simp [Digits]

instance : DecidablePred Digits := fun _ => decidable_of_iff _ digits_iff.symm

theorem Digits.size (h : Digits s) : s.utf8ByteSize = 128 := by
  rw [← Hex.writtenLength_toList, Hex.writtenLength_of_digits h.2, String.length_toList, h.1]

/-- What is read of a text with 128 octets has 64, for then each of these is a digit. -/
theorem length_of_decode (hsize : s.utf8ByteSize = 128) (h : Hex.decode s.toList = .ok o) :
    o.length = 64 := by
  obtain ⟨hall, hlower⟩ := Hex.decode_iff_digits.1 h
  have hlength := congrArg List.length hlower
  rw [List.length_map, Hex.length_encode, ← Hex.writtenLength_of_digits hall,
    Hex.writtenLength_toList, hsize] at hlength
  omega

theorem digits_of_decode (hsize : s.utf8ByteSize = 128) (h : Hex.decode s.toList = .ok o) :
    Digits s := by
  obtain ⟨hall, -⟩ := Hex.decode_iff_digits.1 h
  refine ⟨?_, hall⟩
  rw [← String.length_toList, ← Hex.writtenLength_of_digits hall, Hex.writtenLength_toList, hsize]

/-- A text of 128 digits is the one of a key, in either case, and every other text is refused. -/
theorem ofHex_ends (s : String) :
    (Digits s ∧ ∃ k, ofHex s = .ok k ∧ s.toLower = k.hex) ∨
      (¬ Digits s ∧ ∃ m, ofHex s = .error (.invalidKey m)) := by
  unfold ofHex
  by_cases hsize : s.utf8ByteSize = 128
  · rw [if_neg (not_not_intro hsize)]
    cases hread : Hex.decode s.toList with
    | error e =>
      refine .inr ⟨fun hd => ?_, _, rfl⟩
      have hlength : s.toList.length % 2 = 0 := by rw [String.length_toList, hd.1]
      obtain ⟨o, ho⟩ := Hex.exists_decode hd.2 hlength
      cases ho.symm.trans hread
    | ok o =>
      obtain ⟨k, hk, hs, he⟩ := exists_halves (length_of_decode hsize hread)
      dsimp only
      rw [hs, he]
      refine .inl ⟨digits_of_decode hsize hread, k, rfl, toLower_eq_hex_iff.2 ?_⟩
      rw [hk]
      exact (Hex.decode_iff_digits.1 hread).2
  · rw [if_pos hsize]
    exact .inr ⟨fun hd => hsize hd.size, _, rfl⟩

theorem read_toJson (k : PublicKey) : (Json.ofText? k.toJson.render).bind ofJson? = some k := by
  have hclear : k.toJson.Clear := by simp [toJson, Json.Clear, Json.ClearMembers]
  rw [Json.ofText?, Json.read?_render hclear, Option.bind_some, ofJson?_toJson]

end PublicKey

theorem Signature.read_toJson (s : Signature) :
    (Json.ofText? s.toJson.render).bind ofJson? = some s := by
  have hclear : s.toJson.Clear := trivial
  rw [Json.ofText?, Json.read?_render hclear, Option.bind_some, ofJson?_toJson]

/-- A key is read from a text exactly if this has 128 digits and is, in lower case, the text of the key.
Such a text is the one of a key, every other one is refused as no key, and wherever the octets of a text
come to be cut in two there are 64 of them. The JSON texts of keys and of signatures are read back. -/
theorem PublicKey.ofHex_exact :
    (∀ (s : String) (k : PublicKey), ofHex s = .ok k ↔ Digits s ∧ s.toLower = k.hex) ∧
    (∀ s : String, (Digits s → ∃ k, ofHex s = .ok k) ∧
      (¬ Digits s → ∃ m, ofHex s = .error (.invalidKey m))) ∧
    (∀ (s : String) (o : Octets), s.utf8ByteSize = 128 → Hex.decode s.toList = .ok o →
      o.length = 64) ∧
    (∀ k : PublicKey, (Json.ofText? k.toJson.render).bind ofJson? = some k) ∧
    ∀ s : Signature, (Json.ofText? s.toJson.render).bind Signature.ofJson? = some s := by
  refine ⟨fun s k => ?_, fun s => ?_, fun s o => length_of_decode, read_toJson, Signature.read_toJson⟩
  · rcases ofHex_ends s with ⟨hd, l, h, hlower⟩ | ⟨hd, m, h⟩
    · rw [h, hlower, Except.ok.injEq]
      exact ⟨fun hsame => ⟨hd, congrArg hex hsame⟩, fun hsame => hex_inj hsame.2⟩
    · rw [h]
      exact ⟨nofun, fun hsame => absurd hsame.1 hd⟩
  · rcases ofHex_ends s with ⟨hd, l, h, -⟩ | ⟨hd, m, h⟩
    · exact ⟨fun _ => ⟨l, h⟩, fun hn => absurd hd hn⟩
    · exact ⟨fun hn => absurd hn hd, fun _ => ⟨m, h⟩⟩

/-- A text of 128 octets whose first character takes two of them, and one of digits in both cases. -/
theorem PublicKey.ofHex_exact_of_wide :
    let wide := String.ofList ('ä' :: List.replicate 126 '0')
    let mixed := String.ofList (List.replicate 64 ['a', 'B']).flatten
    let key : PublicKey := ⟨⟨List.replicate 32 0xab, rfl⟩, ⟨List.replicate 32 0xab, rfl⟩⟩
    (wide.utf8ByteSize = 128 ∧ ¬ Digits wide ∧ ∃ m, ofHex wide = .error (.invalidKey m)) ∧
      (Digits mixed ∧ mixed.toLower = key.hex ∧ (∃ k, ofHex mixed = .ok k) ∧
        ofHex mixed = .ok key) ∧
      mixed.utf8ByteSize = 128 ∧ Hex.decode mixed.toList = .ok key.octets ∧
        key.octets.length = 64 := by
  intro wide mixed key
  have hwide : ¬ Digits wide := by decide +kernel
  have hmixed : Digits mixed := by decide +kernel
  have hchars : mixed.toList.map Char.toLower = Hex.encode key.octets := by decide +kernel
  have hlower : mixed.toLower = key.hex := toLower_eq_hex_iff.2 hchars
  have hread : Hex.decode mixed.toList = .ok key.octets :=
    Hex.decode_iff_digits.2 ⟨hmixed.2, hchars⟩
  exact ⟨⟨by decide +kernel, hwide, (ofHex_exact.2.1 wide).2 hwide⟩,
    ⟨hmixed, hlower, (ofHex_exact.2.1 mixed).1 hmixed, (ofHex_exact.1 mixed key).2 ⟨hmixed, hlower⟩⟩,
    hmixed.size, hread, ofHex_exact.2.2.1 mixed _ hmixed.size hread⟩

end EndToEnd
