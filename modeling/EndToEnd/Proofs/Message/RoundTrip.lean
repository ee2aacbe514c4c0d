/-
  Messages reach the keys that they are sealed for.

  For envelopes: what either mode seals is addressed to the recipients, each of them opens it, and
  nobody with another key id does. For messages of a vault: the sender's own key stands first among
  the recipients, also of a stream. For texts: sealing a text that is not blank fails only where the
  cipher refuses to lock it, and what it gives is read back as the same text by the sender and by every
  other recipient.
-/
import EndToEnd.Message.Streamed
import EndToEnd.Proofs.CipherSuite.Transparent
import EndToEnd.Proofs.Envelope.Refusal
import EndToEnd.Proofs.Envelope.RoundTrip
import EndToEnd.Proofs.KeyStore
import EndToEnd.Proofs.Message.Text

namespace EndToEnd

open Envelope (Addressed Settles)

variable {S : CipherSuite} {identity : String} {others : Option (List PublicKey)}

namespace Message

/-! ## Both formats -/

namespace Format

variable {format : Format} {data sealed : Octets} {sender reader : KeyPair}
  {readers : List PublicKey} {tape tape' : Tape}

theorem addressed (h : format.encrypt S data sender readers tape = (.ok sealed, tape'))
    (hl : Addressable sealed) : Addressed S readers sealed := by
  cases format with
  | authenticated => exact Envelope.addressed_of_authEncrypt h hl
  | signed => exact Envelope.addressed_of_signThenEncrypt h hl

theorem decrypt_of_mem (ha : S.Agrees) (ho : S.Opens) (hc : S.Accepts)
    (hids : PublicKey.DistinctIds S readers)
    (h : format.encrypt S data sender readers tape = (.ok sealed, tape')) (hd : Addressable data)
    (hl : Addressable sealed) (hmem : reader.publicKey S ∈ readers) :
    format.decrypt S sealed reader (sender.publicKey S) = .ok data := by
  cases format with
  | authenticated => exact Envelope.authDecrypt_of_mem ha ho hc hids h hd hl hmem
  | signed =>
    exact Envelope.decryptThenVerify_of_mem ha ho hc hids h hl hmem
      (PublicKey.distinctIds_singleton S _) List.mem_cons_self

/-- Data is locked alone or with its signature, which takes 144 octets. -/
theorem settles (format : Format) (data : Octets) (sender : KeyPair) (hne : readers ≠ []) :
    Settles S (fun _ length => length ≤ data.length + 144)
      (format.encrypt S data sender readers) := by
  cases format with
  | authenticated =>
    exact Envelope.settles_authEncrypt (fun _ => by omega) (fun _ _ _ _ _ => by omega) hne sender
  | signed => exact Envelope.settles_signThenEncrypt (fun _ => by omega) (fun _ => by omega) hne sender

end Format

/-! ## Messages of a vault -/

theorem recipients_of_ne (own : PublicKey) (h : others ≠ some []) :
    recipients own others = .ok (own :: others.getD []) := by
  cases others with
  | none => rfl
  | some keys =>
    cases keys with
    | nil => exact absurd rfl h
    | cons k keys => rfl

theorem recipients_ok {own : PublicKey} {readers : List PublicKey}
    (h : recipients own others = .ok readers) : readers = own :: others.getD [] := by
  cases others with
  | none => cases h; rfl
  | some keys =>
    cases keys with
    | nil => cases h
    | cons k keys => cases h; rfl

variable {format : Format} {data sealed : Octets} {v v' : Vault} {own : KeyPair}

theorem encrypt_run (hd : data ≠ []) (hkey : Vault.loadKey S identity v = (.ok own, v))
    (ho : others ≠ some []) {r : Except CryptoError Octets} {tape : Tape}
    (h : format.encrypt S data own (own.publicKey S :: others.getD []) v.tape = (r, tape)) :
    encrypt S format identity data others v = (r.mapError .crypto, ⟨v.keys, tape⟩) := by
  have hdata : requireData data = .ok () := if_neg (by simpa using hd)
  rw [encrypt, hdata, Action.bind_ok (Action.lift_run _ _), Action.bind_ok hkey,
    recipients_of_ne _ ho, Action.bind_ok (Action.lift_run _ _)]
  exact Vault.sealing_run _ h

/-- A message is sealed with the sender's key for the sender first, then for the others. -/
theorem encrypt_ok (h : encrypt S format identity data others v = (.ok sealed, v')) :
    ∃ own tape', Vault.loadKey S identity v = (.ok own, v) ∧
      format.encrypt S data own (own.publicKey S :: others.getD []) v.tape = (.ok sealed, tape') := by
  obtain ⟨_, -, h⟩ := Action.of_lift_bind_ok h
  obtain ⟨own, hkey, h⟩ := Vault.of_loadKey_bind_ok h
  obtain ⟨readers, hreaders, h⟩ := Action.of_lift_bind_ok h
  rw [recipients_ok hreaders] at h
  cases hrun : format.encrypt S data own (own.publicKey S :: others.getD []) v.tape with
  | mk r tape' =>
    rw [Vault.sealing_run _ hrun] at h
    cases r with
    | error e => cases h
    | ok o => cases h; exact ⟨own, tape', hkey, hrun⟩

theorem decrypt_run (hs : sealed ≠ []) (hkey : Vault.loadKey S identity v = (.ok own, v))
    (sender : Option PublicKey) :
    decrypt S format identity sealed sender v =
      ((format.decrypt S sealed own (sender.getD (own.publicKey S))).mapError Error.ofDecryption,
        v) := by
  have hdata : requireData sealed = .ok () := if_neg (by simpa using hs)
  rw [decrypt, hdata, Action.bind_ok (Action.lift_run _ _), Action.bind_ok hkey]
  rfl

/-! ## Texts -/

theorem decryptText_run (hs : sealed ≠ []) (hkey : Vault.loadKey S identity v = (.ok own, v))
    {sender : Option PublicKey} {text : String}
    (h : format.decrypt S sealed own (sender.getD (own.publicKey S)) = .ok (Utf8.encode text)) :
    decryptText S format identity (encodeText sealed) sender v = (.ok text, v) := by
  have hdecrypt : decrypt S format identity sealed sender v = (.ok (Utf8.encode text), v) := by
    rw [decrypt_run hs hkey, h]
    rfl
  rw [decryptText, readText, decodeText_encodeText hs, Action.bind_ok (Action.lift_run _ _),
    Action.bind_ok hdecrypt, plainText_encode]
  rfl

/-- Sealing a text for others gives a text that sender and recipients read back, or the cipher has
refused to lock it. -/
theorem encryptText_run (ha : S.Agrees) (ho : S.Opens) (hc : S.Accepts)
    (hkey : Vault.loadKey S identity v = (.ok own, v)) {text : String}
    (hb : Text.isBlank text = false) (hothers : others ≠ some [])
    (ht : Addressable (Utf8.encode text)) (format : Format) :
    ∃ v', v'.keys = v.keys ∧
      ((∃ cipher, encryptText S format identity text others v = (.ok cipher, v') ∧
          (Addressable (Utf8.encode cipher) →
            PublicKey.DistinctIds S (own.publicKey S :: others.getD []) →
            ∀ reader w key, Vault.loadKey S reader w = (.ok key, w) →
              key.publicKey S ∈ own.publicKey S :: others.getD [] →
              ∀ sender : Option PublicKey, sender.getD (key.publicKey S) = own.publicKey S →
                decryptText S format reader cipher sender w = (.ok text, w))) ∨
        ∃ associated length, length ≤ (Utf8.encode text).length + 144 ∧
          ¬ S.Locks associated length ∧
          encryptText S format identity text others v = (.error (.crypto Envelope.refusal), v')) := by
  have htext : requireText "text" text = .ok () := if_neg (by rw [hb]; exact Bool.false_ne_true)
  have hd := encode_ne_nil hb
  have hrun : ∀ (r : Except CryptoError Octets) (tape : Tape),
      format.encrypt S (Utf8.encode text) own (own.publicKey S :: others.getD []) v.tape = (r, tape) →
        encryptText S format identity text others v =
          ((r.mapError .crypto).map encodeText, ⟨v.keys, tape⟩) := by
    intro r tape h
    rw [encryptText, htext, Action.bind_ok (Action.lift_run _ _), Action.map_run,
      encrypt_run hd hkey hothers h]
  rcases format.settles (Utf8.encode text) own (List.cons_ne_nil _ _) v.tape with
    ⟨sealed, tape, h⟩ | ⟨tape, associated, length, h, hlength, hlocks⟩
  · refine ⟨⟨v.keys, tape⟩, rfl, .inl ⟨encodeText sealed, hrun _ _ h, fun hl hids reader w key hload hmem => ?_⟩⟩
    intro sender hsender
    have hsealed := addressable_of_encodeText hl
    refine decryptText_run (Format.addressed h hsealed).ne_nil hload ?_
    rw [hsender]
    exact Format.decrypt_of_mem ha ho hc hids h ht hsealed hmem
  · exact ⟨⟨v.keys, tape⟩, rfl, .inr ⟨associated, length, hlength, hlocks, hrun _ _ h⟩⟩

end Message

/-- A stream is sealed for the sender first, then for the others. -/
theorem StreamDesk.encrypt_ok {source : Stream.Source} {d d' : StreamDesk} {total : Nat}
    (h : encrypt S identity source others d = (.ok total, d')) :
    ∃ own p, Vault.loadKey S identity d.vault = (.ok own, d.vault) ∧
      Stream.encrypt S (own.publicKey S :: others.getD []) ⟨source, d.sink, d.vault.tape⟩ =
        (.ok total, p) := by
  have hload : inVault (Vault.loadKey S identity) d = (d.vault.keys.loaded S identity, d) := by
    rw [inVault, Action.on_run, Vault.loadKey_eq]
  obtain ⟨own, w, hkey, h⟩ := Action.of_bind_ok h
  rw [hload] at hkey
  obtain ⟨hown, hw⟩ := Prod.mk.inj hkey
  rw [← hw] at h
  obtain ⟨readers, hreaders, h⟩ := Action.of_lift_bind_ok h
  rw [Message.recipients_ok hreaders] at h
  obtain ⟨n, u, hrun, h⟩ := Action.of_bind_ok h
  have hn : n = total := by
    rw [Action.lift_run, requireInput] at h
    split at h
    · cases h
    · cases h; rfl
  rw [hn] at hrun
  cases hstream : Stream.encrypt S (own.publicKey S :: others.getD [])
      ⟨source, d.sink, d.vault.tape⟩ with
  | mk r p =>
    rw [hstream] at hrun
    cases r with
    | error e => cases hrun
    | ok k =>
      cases hrun
      refine ⟨own, p, ?_, hstream⟩
      rw [Vault.loadKey_eq, hown]

namespace Message

/-- What is sealed reaches its readers and nobody else, where agreement gives both sides the same
secret, what was sealed opens and signatures are accepted under their own key.

An envelope of either mode names each key id of its recipients once, in order of first occurrence.
Each recipient gets exactly the data back, with the signer's key or with verifiers among which it is,
and a reader with another key id is told that it is none. A message or a stream from a vault has the
sender's own key first. A text that is not blank is read back by the sender and by each recipient, or
it could not be locked. -/
theorem reaches_recipients (ha : S.Agrees) (ho : S.Opens) (hc : S.Accepts) :
    (∀ (data sealed : Octets) (signer : KeyPair) (recipients : List PublicKey) (tape tape' : Tape),
      Addressable data → Addressable sealed → PublicKey.DistinctIds S recipients →
      (Envelope.authEncrypt S data signer recipients tape = (.ok sealed, tape') →
        Addressed S recipients sealed ∧
        (∀ reader : KeyPair, reader.publicKey S ∈ recipients →
          Envelope.authDecrypt S sealed reader (signer.publicKey S) = .ok data) ∧
        ∀ reader : KeyPair, reader.keyId S ∉ recipients.map (·.keyId S) →
          ∀ sender, Envelope.authDecrypt S sealed reader sender = .error .recipientNotFound) ∧
      (Envelope.signThenEncrypt S data signer recipients tape = (.ok sealed, tape') →
        Addressed S recipients sealed ∧
        (∀ reader : KeyPair, reader.publicKey S ∈ recipients → ∀ verifiers,
          signer.publicKey S ∈ verifiers → PublicKey.DistinctIds S verifiers →
          Envelope.decryptThenVerify S sealed reader verifiers = .ok data) ∧
        ∀ reader : KeyPair, reader.keyId S ∉ recipients.map (·.keyId S) →
          ∀ verifiers,
            Envelope.decryptThenVerify S sealed reader verifiers = .error .recipientNotFound)) ∧
    (∀ format identity data others v v' sealed,
      encrypt S format identity data others v = (.ok sealed, v') → Addressable sealed →
      ∃ own : KeyPair, Vault.loadKey S identity v = (.ok own, v) ∧
        Addressed S (own.publicKey S :: others.getD []) sealed ∧
        ∃ e, Envelope.decode sealed = .ok e ∧
          e.header.recipientIds.head? = some (own.keyId S)) ∧
    (∀ identity source others d d' total,
      StreamDesk.encrypt S identity source others d = (.ok total, d') →
      ∃ (own : KeyPair) (p : Stream.Pipe), Vault.loadKey S identity d.vault = (.ok own, d.vault) ∧
        Stream.encrypt S (own.publicKey S :: others.getD []) ⟨source, d.sink, d.vault.tape⟩ =
          (.ok total, p)) ∧
    ∀ format identity text others v own, Vault.loadKey S identity v = (.ok own, v) →
      Text.isBlank text = false → others ≠ some [] → Addressable (Utf8.encode text) →
      ∃ v', v'.keys = v.keys ∧
        ((∃ cipher, encryptText S format identity text others v = (.ok cipher, v') ∧
            (Addressable (Utf8.encode cipher) →
              PublicKey.DistinctIds S (own.publicKey S :: others.getD []) →
              decryptText S format identity cipher none v' = (.ok text, v') ∧
              ∀ reader w key, Vault.loadKey S reader w = (.ok key, w) →
                key.publicKey S ∈ own.publicKey S :: others.getD [] →
                decryptText S format reader cipher (some (own.publicKey S)) w = (.ok text, w))) ∨
          ∃ associated length, length ≤ (Utf8.encode text).length + 144 ∧
            ¬ S.Locks associated length ∧
            encryptText S format identity text others v =
              (.error (.crypto Envelope.refusal), v')) := by
  refine ⟨?_, ?_, fun _ _ _ _ _ _ h => StreamDesk.encrypt_ok h, ?_⟩
  · intro data sealed signer recipients tape tape' hd hl hids
    refine ⟨fun h => ⟨Envelope.addressed_of_authEncrypt h hl, ?_, ?_⟩,
      fun h => ⟨Envelope.addressed_of_signThenEncrypt h hl, ?_, ?_⟩⟩
    · intro reader hmem
      exact Envelope.authDecrypt_of_mem ha ho hc hids h hd hl hmem
    · intro reader hnot sender
      exact Envelope.authDecrypt_of_not_mem h hl hnot sender
    · intro reader hmem verifiers hsigner hv
      exact Envelope.decryptThenVerify_of_mem ha ho hc hids h hl hmem hv hsigner
    · intro reader hnot verifiers
      exact Envelope.decryptThenVerify_of_not_mem h hl hnot verifiers
  · intro format identity data others v v' sealed h hl
    obtain ⟨own, tape', hkey, hrun⟩ := encrypt_ok h
    have haddressed := Format.addressed hrun hl
    refine ⟨own, hkey, haddressed, ?_⟩
    obtain ⟨e, he, hids⟩ := haddressed
    refine ⟨e, he, ?_⟩
    rw [hids, List.map_cons, List.eraseDups_cons, List.head?_cons]
    rfl
  · intro format identity text others v own hkey hb hothers ht
    obtain ⟨v', hkeys, h⟩ := encryptText_run ha ho hc hkey hb hothers ht format
    refine ⟨v', hkeys, h.imp_left ?_⟩
    rintro ⟨cipher, hrun, hread⟩
    refine ⟨cipher, hrun, fun hl hids => ⟨?_, fun reader w key hload hmem => ?_⟩⟩
    · have hown : Vault.loadKey S identity v' = (.ok own, v') := by
        rw [Vault.loadKey_eq] at hkey
        rw [Vault.loadKey_eq, hkeys, (Prod.mk.inj hkey).1]
      exact hread hl hids identity v' own hown List.mem_cons_self none rfl
    · exact hread hl hids reader w key hload hmem (some (own.publicKey S)) rfl

/-- Three octets are sealed for two readers, one of them listed twice. Each reads them back and a
third reader does not; and a text of the first reader's vault is read back from it. -/
theorem reaches_two_readers :
    let writer : KeyPair := ⟨.zero 32, .littleEndian 32 7⟩
    let reader : KeyPair := ⟨.zero 32, .littleEndian 32 8⟩
    let stranger : KeyPair := ⟨.zero 32, .littleEndian 32 9⟩
    let recipients := [reader.publicKey .transparent, writer.publicKey .transparent,
      reader.publicKey .transparent]
    let vault := (Vault.storeKey .transparent "ada" writer ⟨.empty none, .ofSeed 1⟩).2
    let written := Envelope.authEncrypt .transparent [1, 2, 3] writer recipients (.ofSeed 1)
    (∃ sealed, written.1 = .ok sealed ∧ Addressed .transparent recipients sealed ∧
      Envelope.authDecrypt .transparent sealed reader (writer.publicKey .transparent) =
        .ok [1, 2, 3] ∧
      Envelope.authDecrypt .transparent sealed stranger (writer.publicKey .transparent) =
        .error .recipientNotFound) ∧
    ∃ cipher vault', encryptText .transparent .signed "ada" "hi" none vault = (.ok cipher, vault') ∧
      decryptText .transparent .signed "ada" cipher none vault' = (.ok "hi", vault') := by
  intro writer reader stranger recipients vault written
  have hlaws := @reaches_recipients .transparent CipherSuite.transparent_agrees
    CipherSuite.transparent_opens CipherSuite.transparent_accepts
  constructor
  · have hshort : (written.1.toOption.any fun o => o.length < 1000) = true := by decide +kernel
    cases hrun : written with
    | mk r tape =>
      rw [hrun] at hshort
      cases r with
      | error e => cases hshort
      | ok sealed =>
        have hl : Addressable sealed := Nat.lt_trans (of_decide_eq_true hshort) (by decide)
        obtain ⟨haddressed, hreads, hrefused⟩ :=
          (hlaws.1 [1, 2, 3] sealed writer recipients _ _ (by decide) hl (by decide +kernel)).1 hrun
        exact ⟨sealed, rfl, haddressed, hreads reader (by decide +kernel),
          hrefused stranger (by decide +kernel) _⟩
  · have hkey : Vault.loadKey .transparent "ada" vault = (.ok writer, vault) := by
      rw [Vault.loadKey_eq]
      have : vault.keys.loaded .transparent "ada" = .ok writer := by decide +kernel
      rw [this]
    have hrun : ((encryptText .transparent .signed "ada" "hi" none vault).1.toOption.any fun t =>
        (Utf8.encode t).length < 1000) = true := by decide +kernel
    obtain ⟨vault', -, ⟨cipher, hcipher, hread⟩ | ⟨_, _, _, _, hfail⟩⟩ :=
      hlaws.2.2.2 .signed "ada" "hi" none vault writer hkey (by decide +kernel) nofun
        (by decide +kernel)
    · rw [hcipher] at hrun
      have hl : Addressable (Utf8.encode cipher) :=
        Nat.lt_trans (of_decide_eq_true hrun) (by decide)
      exact ⟨cipher, vault', hcipher, (hread hl (by decide +kernel)).1⟩
    · rw [hfail] at hrun
      cases hrun

end Message

end EndToEnd
