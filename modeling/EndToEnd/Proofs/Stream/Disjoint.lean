/-
  Octets are opened in one form at most: as an authenticated envelope, as an envelope that was signed
  first, or as a stream.

  An envelope starts with its version, which is 1, and the number of its mode. A stream is nothing at
  all or starts with the length of its header frame, most significant octet first; what is read as a
  header is so short that this octet is 0. So `formOf?` tells the form from the first five octets, and
  nothing is asked of the suite, of the keys, or of the pieces that a stream comes in.

  Proved:
  * `formOf?_of_authDecrypt`, `formOf?_of_decryptThenVerify`, `formOf?_of_decrypt`: what is opened has
    the form that it is opened in.
  * `opened_once`: at most one of the three opens some octets, whatever keys each is given.
-/
import EndToEnd.Proofs.Signing
import EndToEnd.Proofs.Stream.Frame
import EndToEnd.Stream.Seal

namespace EndToEnd.Stream

open Envelope (Mode authDecrypt decryptThenVerify)

variable {S : CipherSuite} {o : Octets} {reader : KeyPair}

/-- The form that octets can be opened in, told from the first five. -/
def formOf? : Octets → Option Mode
  | [] => some .stream
  | b :: o =>
    if b = 0 then some .stream
    else if b = Envelope.currentVersion then
      (Envelope.takeNumber 4 o).bind fun number => Mode.ofNumber? number.1
    else none

/-! ## Envelopes -/

/-- What is read as an envelope has the form of its mode. -/
theorem formOf?_of_decode {e : Envelope} (h : Envelope.decode o = .ok e) :
    formOf? o = some e.header.mode := by
  obtain ⟨hversion, -, text, rest, -, rfl⟩ := Envelope.decode_eq_ok_iff.1 h
  have hmode : e.header.mode.number < Nat.pow 256 4 := by cases e.header.mode <;> decide
  have hnumber (tail : Octets) : Envelope.takeNumber 4 (littleEndian 4 e.header.mode.number ++ tail) =
      some (e.header.mode.number, tail) := Envelope.takeNumber_eq_some.2 ⟨hmode, rfl⟩
  rw [Envelope.spelled, List.append_assoc, Envelope.Header.spelled_append, hversion, formOf?,
    if_neg (by decide), if_pos rfl, hnumber, Option.bind_some, Mode.ofNumber?_number]

/-- A body is disclosed only in the mode of its envelope. -/
theorem mode_of_disclose {e : Envelope} {mode : Mode} {body : Octets}
    (h : Envelope.disclose S e mode reader = .ok body) : e.header.mode = mode := by
  unfold Envelope.disclose at h
  split at h
  · cases h
  · rename_i hmode
    exact Decidable.not_not.1 hmode

theorem formOf?_of_authDecrypt {signer : PublicKey} {data : Octets}
    (h : authDecrypt S o reader signer = .ok data) : formOf? o = some .authenticated := by
  obtain ⟨e, he, h⟩ := Action.of_except_bind_ok h
  obtain ⟨body, hbody, -⟩ := Action.of_except_bind_ok h
  rw [formOf?_of_decode he, mode_of_disclose hbody]

theorem formOf?_of_decryptThenVerify {verifiers : List PublicKey} {data : Octets}
    (h : decryptThenVerify S o reader verifiers = .ok data) :
    formOf? o = some .signThenEncrypt := by
  obtain ⟨e, he, h⟩ := Action.of_except_bind_ok h
  obtain ⟨body, hbody, -⟩ := Action.of_except_bind_ok h
  rw [formOf?_of_decode he, mode_of_disclose hbody]

/-! ## Streams -/

/-- The length of a frame of less than 2²⁴ octets starts with 0. -/
theorem exists_frame_eq_cons {f : Octets} (h : f.length < 2 ^ 24) :
    ∃ rest, frame f = 0 :: rest := by
  have hdigit : f.length / 256 / 256 / 256 = 0 := by omega
  refine ⟨[UInt8.ofNat (f.length / 256 / 256), UInt8.ofNat (f.length / 256),
    UInt8.ofNat f.length] ++ f, ?_⟩
  simp [frame, bigEndian, littleEndian, hdigit]

/-- What is opened as a stream is empty or starts with a header frame, which is shorter than that. -/
theorem formOf?_of_decrypt {source : Source} (hs : source.Yields o) {sink : Sink} {total : Nat}
    (h : (decrypt S reader source sink).1 = .ok total) : formOf? o = some .stream := by
  unfold decrypt at h
  cases hcut : cutFrame maxHeader o with
  | none =>
    rcases hs.readFrame_of_no_cut hcut with ⟨t, -, rfl⟩ | ⟨e, t, hread⟩
    · rfl
    · rw [hread] at h
      cases h
  | some cut =>
    obtain ⟨header, rest⟩ := cut
    obtain ⟨hshort, -, rfl⟩ := cutFrame_eq_some.1 hcut
    obtain ⟨tail, htail⟩ := exists_frame_eq_cons (Nat.lt_of_le_of_lt hshort (by decide))
    rw [htail]
    rfl

/-! ## One form at most -/

theorem count_true_le_one {a b c : Bool} (hab : ¬ (a = true ∧ b = true))
    (hac : ¬ (a = true ∧ c = true)) (hbc : ¬ (b = true ∧ c = true)) :
    [a, b, c].count true ≤ 1 := by
  cases a <;> cases b <;> cases c <;> simp_all

theorem ok_of_isOk {ε α : Type} {x : Except ε α} (h : x.isOk = true) : ∃ a, x = .ok a := by
  cases x with
  | error e => cases h
  | ok a => exact ⟨a, rfl⟩

/-- Of opening octets as authenticated, as signed first, and as a stream, one succeeds at most. Each may
be tried with keys of its own, and a stream may come in any pieces. -/
theorem opened_once (S : CipherSuite) {source : Source} (hs : source.Yields o)
    (reader₁ reader₂ reader₃ : KeyPair) (signer : PublicKey) (verifiers : List PublicKey)
    (sink : Sink) :
    [(authDecrypt S o reader₁ signer).isOk, (decryptThenVerify S o reader₂ verifiers).isOk,
      (decrypt S reader₃ source sink).1.isOk].count true ≤ 1 := by
  have hauth (h : (authDecrypt S o reader₁ signer).isOk = true) :
      formOf? o = some .authenticated := by
    obtain ⟨data, hdata⟩ := ok_of_isOk h
    exact formOf?_of_authDecrypt hdata
  have hfirst (h : (decryptThenVerify S o reader₂ verifiers).isOk = true) :
      formOf? o = some .signThenEncrypt := by
    obtain ⟨data, hdata⟩ := ok_of_isOk h
    exact formOf?_of_decryptThenVerify hdata
  have hstream (h : (decrypt S reader₃ source sink).1.isOk = true) : formOf? o = some .stream := by
    obtain ⟨total, htotal⟩ := ok_of_isOk h
    exact formOf?_of_decrypt hs htotal
  refine count_true_le_one ?_ ?_ ?_
  · rintro ⟨ha, hb⟩
    cases (hauth ha).symm.trans (hfirst hb)
  · rintro ⟨ha, hc⟩
    cases (hauth ha).symm.trans (hstream hc)
  · rintro ⟨hb, hc⟩
    cases (hfirst hb).symm.trans (hstream hc)

/-- Octets that open as authenticated, tried in all three forms. -/
theorem opened_once_of_sealed : ∃ sealed,
    authDecrypt .transparent sealed Signing.reader (Signing.owner.publicKey .transparent) =
      .ok [1, 2, 3] ∧
    (Source.ofOctets sealed).Yields sealed ∧
    [(authDecrypt .transparent sealed Signing.reader (Signing.owner.publicKey .transparent)).isOk,
      (decryptThenVerify .transparent sealed Signing.reader
        [Signing.owner.publicKey .transparent]).isOk,
      (decrypt .transparent Signing.reader (.ofOctets sealed) .unlimited).1.isOk].count true ≤ 1 := by
  obtain ⟨sealed, e, hopen, -⟩ := Signing.exists_sealed
  have hyields := Source.yields_ofOctets sealed
  exact ⟨sealed, hopen, hyields, opened_once .transparent hyields _ _ _ _ _ .unlimited⟩

end EndToEnd.Stream
