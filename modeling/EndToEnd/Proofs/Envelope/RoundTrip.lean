/-
  What was sealed is opened by its recipients and by nobody else.

  `Encloses` says what the two modes have in common: the header names each key id of the recipients
  once, and every recipient finds in it the key that the body is locked with. The modes differ in what
  the body is and where the signature stands. From this it follows, for each mode, that a recipient
  gets the data back (`authDecrypt_of_mem`, `decryptThenVerify_of_mem`) and that a reader with another
  key id is told that it is none (`authDecrypt_of_not_mem`, `decryptThenVerify_of_not_mem`).
-/
import EndToEnd.Proofs.Envelope.Codec
import EndToEnd.Proofs.Envelope.Wrap
import EndToEnd.Proofs.Key

namespace EndToEnd.Envelope

variable {S : CipherSuite} {tape tape' : Tape} {recipients : List PublicKey}

/-- The sealed octets are an envelope whose header names the key ids of the recipients, each once and
in order of first occurrence. -/
def Addressed (S : CipherSuite) (recipients : List PublicKey) (sealed : Octets) : Prop :=
  ∃ e, decode sealed = .ok e ∧ e.header.recipientIds = (recipients.map (·.keyId S)).eraseDups

/-- Octets that are addressed are some. -/
theorem Addressed.ne_nil {sealed : Octets} (h : Addressed S recipients sealed) : sealed ≠ [] := by
  rintro rfl
  obtain ⟨e, he, -⟩ := h
  cases he

/-- The envelope holds a body for recipients. -/
structure Encloses (S : CipherSuite) (recipients : List PublicKey) (body : Octets) (e : Envelope) :
    Prop where
  version : e.header.version = currentVersion
  ids : e.header.recipientIds = (recipients.map (·.keyId S)).eraseDups
  locked : ∃ content, S.lock content e.nonce e.header.encode body = some e.body ∧
    (S.Agrees → S.Opens → PublicKey.DistinctIds S recipients →
      ∀ reader : KeyPair, reader.publicKey S ∈ recipients → e.header.contentKey S reader = .ok content)

/-! ## Bodies -/

theorem decodeBody_encodeBody {data : Octets} (hd : Addressable data) (signature : Signature) :
    decodeBody (encodeBody data signature) = .ok (data, signature) := by
  have hs : takeSignature (encodeSignature signature ++ []) = some (signature, []) :=
    takeSignature_encodeSignature signature
  rw [List.append_nil] at hs
  unfold decodeBody encodeBody
  rw [takeOctets_encodeOctets hd]
  dsimp only
  rw [hs]

theorem enclose_ok {header : Header} {content : Block 32} {body sealed : Octets}
    (h : enclose S header content body tape = (.ok sealed, tape')) :
    ∃ e : Envelope, sealed = encode e ∧ e.header = header ∧
      S.lock content e.nonce header.encode body = some e.body := by
  unfold enclose at h
  obtain ⟨⟨nonce, locked⟩, t, hl, h⟩ := Action.of_bind_ok h
  have hlock := lockFresh_ok hl
  cases h
  exact ⟨⟨header, nonce, locked⟩, rfl, rfl, hlock⟩

/-- Every recipient finds the content key in a prepared header. -/
theorem Prepared.contentKey_of_distinctIds {mode : Mode} {content secret : Block 32} {h : Header}
    (hp : Prepared S recipients mode content secret h) (ha : S.Agrees) (ho : S.Opens)
    (hids : PublicKey.DistinctIds S recipients) (reader : KeyPair)
    (hmem : reader.publicKey S ∈ recipients) : h.contentKey S reader = .ok content :=
  hp.contentKey ha ho hmem fun k hk hid => hids k hk _ hmem hid

/-! ## Sealing -/

/-- An authenticated envelope holds the data and a signature over header and data. -/
theorem authEncrypt_ok {data sealed : Octets} {signer : KeyPair}
    (h : authEncrypt S data signer recipients tape = (.ok sealed, tape')) :
    ∃ e, sealed = encode e ∧ e.header.mode = .authenticated ∧
      Encloses S recipients
        (encodeBody data (signer.sign S (authenticatedDigest S e.header data))) e := by
  unfold authEncrypt at h
  split at h
  · cases h
  · obtain ⟨⟨content, header⟩, t, hprepare, h⟩ := Action.of_bind_ok h
    obtain ⟨secret, hp⟩ := prepare_ok hprepare
    obtain ⟨e, hsealed, rfl, hlock⟩ := enclose_ok h
    refine ⟨e, hsealed, ?_, ?_, recipientIds_of_prepare hprepare, content, hlock, ?_⟩
    · rw [hp.unsigned]
      rfl
    · rw [hp.unsigned]
      rfl
    · exact hp.contentKey_of_distinctIds

/-- An envelope that is signed first holds the data; signer and signature stand in its header. -/
theorem signThenEncrypt_ok {data sealed : Octets} {signer : KeyPair}
    (h : signThenEncrypt S data signer recipients tape = (.ok sealed, tape')) :
    ∃ e, sealed = encode e ∧ e.header.mode = .signThenEncrypt ∧
      e.header.signerId = some (signer.keyId S) ∧ e.header.signature = some (signer.sign S data) ∧
      Encloses S recipients data e := by
  unfold signThenEncrypt at h
  split at h
  · cases h
  · obtain ⟨⟨content, header⟩, t, hprepare, h⟩ := Action.of_bind_ok h
    obtain ⟨secret, hp⟩ := prepare_ok hprepare
    obtain ⟨e, hsealed, he, hlock⟩ := enclose_ok h
    -- neither signer nor signature bears on the slots
    have hids : e.header.recipientIds = header.recipientIds := by rw [he]; rfl
    have hkey : ∀ reader, e.header.contentKey S reader = header.contentKey S reader := by
      intro reader
      rw [he]
      rfl
    have hmode : header.version = currentVersion ∧ header.mode = .signThenEncrypt := by
      rw [hp.unsigned]
      exact ⟨rfl, rfl⟩
    refine ⟨e, hsealed, ?_, ?_, ?_, ?_, ?_, content, ?_, fun ha ho hd reader hmem => ?_⟩
    · rw [he]
      exact hmode.2
    · rw [he]
    · rw [he]
    · rw [he]
      exact hmode.1
    · rw [hids, recipientIds_of_prepare hprepare]
    · rw [he]
      exact hlock
    · rw [hkey, hp.contentKey_of_distinctIds ha ho hd reader hmem]

/-! ## Opening -/

namespace Encloses

variable {body : Octets} {e : Envelope} {mode : Mode} {reader : KeyPair}

theorem decode (h : Encloses S recipients body e) (hl : Addressable (encode e)) :
    Envelope.decode (encode e) = .ok e := by
  obtain ⟨hf, hb⟩ := fits_of_length hl
  have hdecode := @decode_encode [] e h.version hf hb
  rwa [List.append_nil] at hdecode

/-- A recipient opens the body. -/
theorem disclose_of_mem (h : Encloses S recipients body e) (ha : S.Agrees) (ho : S.Opens)
    (hids : PublicKey.DistinctIds S recipients) (hm : e.header.mode = mode)
    (hmem : reader.publicKey S ∈ recipients) : disclose S e mode reader = .ok body := by
  obtain ⟨content, hlock, hkey⟩ := h.locked
  unfold disclose
  rw [if_neg (by rw [hm]; exact fun hne => hne rfl), hkey ha ho hids reader hmem]
  dsimp only
  rw [unlock, ho _ _ _ _ _ hlock]

/-- A reader with the key id of no recipient finds no slot. -/
theorem disclose_of_not_mem (h : Encloses S recipients body e) (hm : e.header.mode = mode)
    (hnot : reader.keyId S ∉ recipients.map (·.keyId S)) :
    disclose S e mode reader = .error .recipientNotFound := by
  have hnone : e.header.slots.find? (fun s => s.keyId = reader.keyId S) = none := by
    rw [List.find?_eq_none]
    intro s hs hid
    have hmem : s.keyId ∈ e.header.recipientIds := List.mem_map_of_mem hs
    rw [h.ids, List.mem_eraseDups, of_decide_eq_true hid] at hmem
    exact hnot hmem
  unfold disclose
  rw [if_neg (by rw [hm]; exact fun hne => hne rfl), Header.contentKey]
  dsimp only
  rw [hnone]

end Encloses

section Reading

variable {data sealed : Octets} {signer reader : KeyPair}

theorem addressed_of_authEncrypt
    (h : authEncrypt S data signer recipients tape = (.ok sealed, tape')) (hl : Addressable sealed) :
    Addressed S recipients sealed := by
  obtain ⟨e, rfl, -, he⟩ := authEncrypt_ok h
  exact ⟨e, he.decode hl, he.ids⟩

theorem addressed_of_signThenEncrypt
    (h : signThenEncrypt S data signer recipients tape = (.ok sealed, tape'))
    (hl : Addressable sealed) : Addressed S recipients sealed := by
  obtain ⟨e, rfl, -, -, -, he⟩ := signThenEncrypt_ok h
  exact ⟨e, he.decode hl, he.ids⟩

/-- A recipient gets the data back from an authenticated envelope. -/
theorem authDecrypt_of_mem (ha : S.Agrees) (ho : S.Opens) (hc : S.Accepts)
    (hids : PublicKey.DistinctIds S recipients)
    (h : authEncrypt S data signer recipients tape = (.ok sealed, tape')) (hd : Addressable data)
    (hl : Addressable sealed) (hmem : reader.publicKey S ∈ recipients) :
    authDecrypt S sealed reader (signer.publicKey S) = .ok data := by
  obtain ⟨e, rfl, hm, he⟩ := authEncrypt_ok h
  unfold authDecrypt
  rw [he.decode hl]
  dsimp only [bind, Except.bind]
  rw [he.disclose_of_mem ha ho hids hm hmem]
  dsimp only
  rw [decodeBody_encodeBody hd]
  dsimp only
  rw [PublicKey.verify_sign hc]
  rfl

theorem authDecrypt_of_not_mem
    (h : authEncrypt S data signer recipients tape = (.ok sealed, tape')) (hl : Addressable sealed)
    (hnot : reader.keyId S ∉ recipients.map (·.keyId S)) (sender : PublicKey) :
    authDecrypt S sealed reader sender = .error .recipientNotFound := by
  obtain ⟨e, rfl, hm, he⟩ := authEncrypt_ok h
  unfold authDecrypt
  rw [he.decode hl]
  dsimp only [bind, Except.bind]
  rw [he.disclose_of_not_mem hm hnot]

/-- The signer's key is found among the verifiers by its id. -/
theorem find?_of_distinctIds {keys : List PublicKey} {k : PublicKey}
    (hids : PublicKey.DistinctIds S keys) (hk : k ∈ keys) :
    keys.find? (fun l => l.keyId S = k.keyId S) = some k := by
  have hsome : (keys.find? fun l => l.keyId S = k.keyId S).isSome :=
    List.find?_isSome.2 ⟨k, hk, decide_eq_true rfl⟩
  obtain ⟨l, hl⟩ := Option.isSome_iff_exists.1 hsome
  have hid : l.keyId S = k.keyId S := by simpa using List.find?_some hl
  rw [hl, hids l (List.mem_of_find?_eq_some hl) k hk hid]

/-- A recipient gets the data back from an envelope that was signed first. -/
theorem decryptThenVerify_of_mem (ha : S.Agrees) (ho : S.Opens) (hc : S.Accepts)
    (hids : PublicKey.DistinctIds S recipients)
    (h : signThenEncrypt S data signer recipients tape = (.ok sealed, tape'))
    (hl : Addressable sealed) (hmem : reader.publicKey S ∈ recipients) {verifiers : List PublicKey}
    (hv : PublicKey.DistinctIds S verifiers) (hsigner : signer.publicKey S ∈ verifiers) :
    decryptThenVerify S sealed reader verifiers = .ok data := by
  obtain ⟨e, rfl, hm, hid, hsignature, he⟩ := signThenEncrypt_ok h
  unfold decryptThenVerify
  rw [he.decode hl]
  dsimp only [bind, Except.bind]
  rw [he.disclose_of_mem ha ho hids hm hmem, hid, hsignature]
  dsimp only
  rw [show signer.keyId S = (signer.publicKey S).keyId S from rfl, find?_of_distinctIds hv hsigner]
  dsimp only
  rw [PublicKey.verify_sign hc]
  rfl

theorem decryptThenVerify_of_not_mem
    (h : signThenEncrypt S data signer recipients tape = (.ok sealed, tape'))
    (hl : Addressable sealed) (hnot : reader.keyId S ∉ recipients.map (·.keyId S))
    (verifiers : List PublicKey) :
    decryptThenVerify S sealed reader verifiers = .error .recipientNotFound := by
  obtain ⟨e, rfl, hm, -, -, he⟩ := signThenEncrypt_ok h
  unfold decryptThenVerify
  rw [he.decode hl]
  dsimp only [bind, Except.bind]
  rw [he.disclose_of_not_mem hm hnot]

end Reading

end EndToEnd.Envelope
