/-
  Octets are read as an envelope if and only if they start with a written form of it.

  An envelope has one written form up to the case of the digits of its signature, and `encode` gives the
  one in lower case. Whatever follows the form is passed over; all other octets are no envelope. Lengths
  are written with eight octets, and an envelope `Fits` if they can hold its own.
-/
import EndToEnd.Proofs.Envelope.Codec

namespace EndToEnd.Envelope

variable {o : Octets} {e : Envelope}

/-- An envelope whose lengths fit into eight octets. -/
structure Fits (e : Envelope) : Prop where
  header : e.header.Fits
  body : Addressable e.body

/-- A text that is the digits of the signature of an envelope, in either case. It is empty for an
envelope without a signature. -/
def SpelledBy (e : Envelope) (text : Octets) : Prop := text.map lowerDigit = e.header.digits

theorem spelled_lower {text : Octets} (ht : SpelledBy e text) :
    spelled e (text.map lowerDigit) = encode e := by
  rw [ht, spelled_digits]

theorem Header.length_spelled (h : Header) {a b : Octets} (hab : a.length = b.length) :
    (h.spelled a).length = (h.spelled b).length := by
  unfold Header.spelled
  simp only [List.length_cons, List.length_append]
  cases h.signature with
  | none => rfl
  | some s => simp only [encodeOption, encodeOctets, List.length_cons, List.length_append, encodeLength,
      length_littleEndian, hab]

/-- All written forms are of one length. -/
theorem length_spelled {text : Octets} (ht : SpelledBy e text) :
    (spelled e text).length = (encode e).length := by
  have hlength : text.length = (text.map lowerDigit).length := (List.length_map ..).symm
  rw [← spelled_lower ht]
  simp only [spelled, List.length_append, e.header.length_spelled hlength]

/-- An unsigned header is written without digits, so there the text may be taken to be empty. -/
theorem spelledBy_of_signature {text : Octets}
    (ht : ∀ s ∈ e.header.signature, text.map lowerDigit = digits s) :
    ∃ text', SpelledBy e text' ∧ spelled e text' = spelled e text := by
  unfold SpelledBy spelled Header.digits Header.spelled
  cases hs : e.header.signature with
  | none => exact ⟨[], rfl, rfl⟩
  | some s => exact ⟨text, ht s hs, rfl⟩

theorem lower_of_spelledBy {text : Octets} (ht : SpelledBy e text) :
    ∀ s ∈ e.header.signature, text.map lowerDigit = digits s := by
  intro s hs
  rw [ht, Header.digits, show e.header.signature = some s from hs]
  rfl

/-- What is read as an envelope starts with a written form of it. -/
theorem decode_eq_ok_iff : decode o = .ok e ↔ e.header.version = currentVersion ∧ Fits e ∧
    ∃ text rest, SpelledBy e text ∧ o = spelled e text ++ rest := by
  constructor
  · intro h
    unfold decode at h
    split at h
    · cases h
    · rename_i e' rest htake
      split at h
      · rename_i hversion
        cases h
        obtain ⟨hheader, hbody, text, ht, rfl⟩ := takeEnvelope_eq_some.1 htake
        obtain ⟨text', ht', hspelled⟩ := spelledBy_of_signature ht
        exact ⟨hversion, ⟨hheader, hbody⟩, text', rest, ht', by rw [hspelled]⟩
      · cases h
  · rintro ⟨hversion, hfits, text, rest, ht, rfl⟩
    have htake := takeEnvelope_eq_some.2
      ⟨hfits.header, hfits.body, text, lower_of_spelledBy ht, @rfl _ (spelled e text ++ rest)⟩
    unfold decode
    rw [htake]
    exact if_pos hversion

/-- Octets are read as an envelope, or found to be none. -/
theorem decode_ok_or_invalid (o : Octets) :
    (∃ e, decode o = .ok e) ∨ ∃ m, decode o = .error (.invalidFormat m) := by
  unfold decode
  split
  · exact .inr ⟨_, rfl⟩
  · rename_i e rest htake
    split
    · exact .inl ⟨e, rfl⟩
    · exact .inr ⟨_, rfl⟩

/-- An envelope of the current version is read back from its octets, whatever follows them. Octets that
are read as an envelope start with as many octets as `encode` gives, and these are the same but for the
case of the digits of the signature. All other octets are refused as no envelope. -/
theorem decode_exact :
    (∀ (e : Envelope) (rest : Octets), e.header.version = currentVersion → Fits e →
      decode (encode e ++ rest) = .ok e) ∧
    (∀ (o : Octets) (e : Envelope), decode o = .ok e →
      e.header.version = currentVersion ∧ Fits e ∧ ∃ text rest,
        o = spelled e text ++ rest ∧ (spelled e text).length = (encode e).length ∧
        text.map lowerDigit = e.header.digits ∧ encode e = spelled e (text.map lowerDigit)) ∧
    ∀ o : Octets, (∀ (e : Envelope) (text rest : Octets), e.header.version = currentVersion → Fits e →
        text.map lowerDigit = e.header.digits → o ≠ spelled e text ++ rest) →
      ∃ m, decode o = .error (.invalidFormat m) := by
  refine ⟨fun e rest hversion hfits => decode_encode hversion hfits.header hfits.body,
    fun o e h => ?_, fun o hnone => ?_⟩
  · obtain ⟨hversion, hfits, text, rest, ht, ho⟩ := decode_eq_ok_iff.1 h
    exact ⟨hversion, hfits, text, rest, ho, length_spelled ht, ht, (spelled_lower ht).symm⟩
  · rcases decode_ok_or_invalid o with ⟨e, h⟩ | hrefused
    · obtain ⟨hversion, hfits, text, rest, ht, ho⟩ := decode_eq_ok_iff.1 h
      exact absurd ho (hnone e text rest hversion hfits ht)
    · exact hrefused

/-- An envelope for two readers, one slot with a key of no octets, signed in the open. -/
def signedExample : Envelope :=
  ⟨⟨currentVersion, .signThenEncrypt, ⟨List.replicate 32 7, rfl⟩,
    [⟨⟨List.replicate 8 1, rfl⟩, ⟨List.replicate 12 2, rfl⟩, [3, 4, 5]⟩,
      ⟨⟨List.replicate 8 6, rfl⟩, ⟨List.replicate 12 8, rfl⟩, []⟩],
    some ⟨List.replicate 8 9, rfl⟩, some ⟨List.replicate 64 0xab, rfl⟩⟩,
    ⟨List.replicate 12 10, rfl⟩, [11, 12]⟩

theorem fits_signedExample : Fits signedExample :=
  ⟨⟨by decide, by decide⟩, by decide⟩

/-- The digits of the signature in upper case. -/
def upperDigits : Octets := (List.replicate 64 [65, 66]).flatten

theorem decode_exact_of_signed :
    decode (encode signedExample ++ [0, 1]) = .ok signedExample ∧
      upperDigits.map lowerDigit = signedExample.header.digits ∧
      decode (spelled signedExample upperDigits ++ [255]) = .ok signedExample ∧
      (∃ text rest, spelled signedExample upperDigits ++ [255] = spelled signedExample text ++ rest ∧
        encode signedExample = spelled signedExample (text.map lowerDigit)) ∧
      ∃ m, decode [] = .error (.invalidFormat m) := by
  have hdigits : upperDigits.map lowerDigit = signedExample.header.digits := by decide +kernel
  have hupper : decode (spelled signedExample upperDigits ++ [255]) = .ok signedExample :=
    decode_eq_ok_iff.2 ⟨rfl, fits_signedExample, upperDigits, [255], hdigits, rfl⟩
  obtain ⟨-, -, text, rest, ho, -, -, hlower⟩ := decode_exact.2.1 _ _ hupper
  exact ⟨decode_exact.1 signedExample [0, 1] rfl fits_signedExample, hdigits, hupper,
    ⟨text, rest, ho, hlower⟩, decode_exact.2.2 [] fun e text rest _ _ _ ho => nomatch ho⟩

end EndToEnd.Envelope
