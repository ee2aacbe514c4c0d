/-
  Which keys a message is checked with, and how a failed check is reported.

  A message that was signed first is checked with the first of the given keys that has the signer's id.
  Where no two keys share an id, that key is the only one, and it is found wherever it stands: the order
  of the keys, repetitions and further keys change nothing for a message that one of them accepts.

  A check fails where no key has the id, where the key refuses the signature, or where the key can
  verify nothing at all. The first two are reported as a signature that is not valid. The third is
  reported as an unusable key and reaches the caller as such.

  Proved:
  * `Envelope.vouched_of_subset`, `Envelope.vouched_congr`: the choice of the key, for larger sets of
    keys and for the same set.
  * `keys_are_a_set`: the same for whole messages, and for the answers of a lookup.
  * `check_ends`: every message that opens ends in one of three ways, and when it is which.
-/
import EndToEnd.Device
import EndToEnd.Proofs.Message.Dated
import EndToEnd.Proofs.Signing

namespace EndToEnd

variable {S : CipherSuite} {sealed data : Octets} {reader : KeyPair}

/-! ## One key -/

namespace PublicKey

variable {key : PublicKey} {message : Octets} {signature : Signature}

/-- The error of a key that can verify nothing. -/
def unusable : CryptoError :=
  .invalidKey "Invalid signing public key: signature error: Cannot decompress Edwards point"

theorem verify_of_usable (h : S.isSigningKey key.signing = true) :
    key.verify S message signature =
      if S.verify key.signing message signature then .ok () else .error .signatureNotValid := by
  have hcheck : key.checkSigning S = .ok () := if_pos h
  unfold verify
  rw [hcheck]

theorem verify_of_unusable (h : S.isSigningKey key.signing = false) :
    key.verify S message signature = .error unusable := by
  have hcheck : key.checkSigning S = .error unusable := if_neg (by rw [h]; exact Bool.false_ne_true)
  unfold verify
  rw [hcheck]

end PublicKey

/-! ## The choice of the key -/

namespace Envelope

variable {V W : List PublicKey} {h : Header}

/-- Data that was opened, if one of the keys has the signer's id and accepts the signature. -/
def vouched (S : CipherSuite) (keys : List PublicKey) (h : Header) (data : Octets) :
    Except CryptoError Octets :=
  match h.signerId, h.signature with
  | some id, some signature =>
    match keys.find? (fun k => k.keyId S = id) with
    | none => .error .signatureNotValid
    | some key => (key.verify S data signature).map fun _ => data
  | _, _ => .error .signatureNotValid

/-- Opening a message that was signed first is opening its envelope and then that. -/
theorem decryptThenVerify_eq (S : CipherSuite) (sealed : Octets) (reader : KeyPair)
    (keys : List PublicKey) :
    decryptThenVerify S sealed reader keys = (do
      let e ← decode sealed
      let data ← disclose S e .signThenEncrypt reader
      vouched S keys e.header data) := by
  unfold decryptThenVerify
  refine bind_congr fun e => bind_congr fun data => ?_
  unfold vouched
  cases e.header.signerId with
  | none => rfl
  | some id =>
    cases e.header.signature with
    | none => rfl
    | some signature =>
      dsimp only
      cases keys.find? (fun k => k.keyId S = id) with
      | none => rfl
      | some key =>
        dsimp only
        cases key.verify S data signature <;> rfl

/-- A key that is found by its id is found among more keys. -/
theorem find?_of_subset (hids : PublicKey.DistinctIds S W) (hsub : V ⊆ W) {id : KeyId} {k : PublicKey}
    (hfound : V.find? (fun l => l.keyId S = id) = some k) :
    W.find? (fun l => l.keyId S = id) = some k := by
  have hid : k.keyId S = id := by simpa using List.find?_some hfound
  subst hid
  exact find?_of_distinctIds hids (hsub (List.mem_of_find?_eq_some hfound))

/-- The same key is found among the same keys. -/
theorem find?_congr (hids : PublicKey.DistinctIds S W) (hsub : V ⊆ W) (hsup : W ⊆ V) (id : KeyId) :
    V.find? (fun l => l.keyId S = id) = W.find? (fun l => l.keyId S = id) := by
  cases hfound : V.find? (fun l => l.keyId S = id) with
  | some k => rw [find?_of_subset hids hsub hfound]
  | none =>
    rw [List.find?_eq_none] at hfound
    exact (List.find?_eq_none.2 fun k hk => hfound k (hsup hk)).symm

theorem vouched_of_subset (hids : PublicKey.DistinctIds S W) (hsub : V ⊆ W) {answer : Octets}
    (hok : vouched S V h data = .ok answer) : vouched S W h data = .ok answer := by
  unfold vouched at hok ⊢
  cases hid : h.signerId with
  | none => rw [hid] at hok; cases hok
  | some id =>
    cases hsignature : h.signature with
    | none => rw [hid, hsignature] at hok; cases hok
    | some signature =>
      rw [hid, hsignature] at hok
      dsimp only at hok ⊢
      cases hfound : V.find? (fun k => k.keyId S = id) with
      | none => rw [hfound] at hok; cases hok
      | some key =>
        rw [hfound] at hok
        rw [find?_of_subset hids hsub hfound]
        exact hok

theorem vouched_congr (hids : PublicKey.DistinctIds S W) (hsub : V ⊆ W) (hsup : W ⊆ V) :
    vouched S V = vouched S W := by
  funext h data
  unfold vouched
  simp only [find?_congr hids hsub hsup]

theorem decryptThenVerify_of_subset (hids : PublicKey.DistinctIds S W) (hsub : V ⊆ W)
    (hok : decryptThenVerify S sealed reader V = .ok data) :
    decryptThenVerify S sealed reader W = .ok data := by
  rw [decryptThenVerify_eq] at hok ⊢
  obtain ⟨e, he, hok⟩ := Action.of_except_bind_ok hok
  obtain ⟨body, hbody, hok⟩ := Action.of_except_bind_ok hok
  rw [he]
  dsimp only [bind, Except.bind]
  rw [hbody]
  exact vouched_of_subset hids hsub hok

theorem decryptThenVerify_congr (hids : PublicKey.DistinctIds S W) (hsub : V ⊆ W) (hsup : W ⊆ V)
    (sealed : Octets) (reader : KeyPair) :
    decryptThenVerify S sealed reader V = decryptThenVerify S sealed reader W := by
  rw [decryptThenVerify_eq, decryptThenVerify_eq, vouched_congr hids hsub hsup]

end Envelope

namespace Message

variable {identity : String} {v v' : Vault} {own : KeyPair} {V W : List PublicKey}

theorem decryptWithKeys_run (hV : V ≠ []) (hs : sealed ≠ [])
    (hkey : Vault.loadKey S identity v = (.ok own, v)) :
    decryptWithKeys S identity sealed V v =
      ((Envelope.decryptThenVerify S sealed own V).mapError Error.ofDecryption, v) := by
  have hdata : requireData sealed = .ok () := if_neg (by simpa using hs)
  rw [decryptWithKeys, if_neg (by simpa using hV), hdata, Action.bind_ok (Action.lift_run _ _),
    Action.bind_ok hkey]
  rfl

/-- What is opened with several keys is opened with the vault's own key, and leaves the vault. -/
theorem decryptWithKeys_ok (h : decryptWithKeys S identity sealed V v = (.ok data, v')) :
    V ≠ [] ∧ sealed ≠ [] ∧ v' = v ∧ ∃ own, Vault.loadKey S identity v = (.ok own, v) ∧
      Envelope.decryptThenVerify S sealed own V = .ok data := by
  unfold decryptWithKeys at h
  split at h
  · cases h
  rename_i hV
  obtain ⟨_, hdata, h⟩ := Action.of_lift_bind_ok h
  have hs : sealed ≠ [] := by
    rintro rfl
    cases hdata
  obtain ⟨own, hkey, h⟩ := Vault.of_loadKey_bind_ok h
  obtain ⟨hok, hv⟩ := Prod.mk.inj h
  refine ⟨by simpa using hV, hs, hv.symm, own, hkey, ?_⟩
  cases hrun : Envelope.decryptThenVerify S sealed own V with
  | error e => rw [hrun] at hok; cases hok
  | ok answer => rw [hrun] at hok; cases hok; rfl

theorem decryptWithKeys_of_subset (hids : PublicKey.DistinctIds S W) (hsub : V ⊆ W)
    (hok : decryptWithKeys S identity sealed V v = (.ok data, v')) :
    decryptWithKeys S identity sealed W v = (.ok data, v') := by
  obtain ⟨hV, hs, rfl, own, hkey, hrun⟩ := decryptWithKeys_ok hok
  have hW : W ≠ [] := by
    rintro rfl
    exact hV (List.subset_nil.1 hsub)
  rw [decryptWithKeys_run hW hs hkey, Envelope.decryptThenVerify_of_subset hids hsub hrun]
  rfl

theorem decryptWithKeys_congr (hids : PublicKey.DistinctIds S W) (hsub : V ⊆ W) (hsup : W ⊆ V)
    (identity : String) (sealed : Octets) :
    decryptWithKeys S identity sealed V = decryptWithKeys S identity sealed W := by
  have hempty : V.isEmpty = W.isEmpty := by
    rw [Bool.eq_iff_iff, List.isEmpty_iff, List.isEmpty_iff]
    constructor
    · rintro rfl
      exact List.subset_nil.1 hsup
    · rintro rfl
      exact List.subset_nil.1 hsub
  unfold decryptWithKeys
  simp only [hempty, Envelope.decryptThenVerify_congr hids hsub hsup]

/-- Keys of which no two share an id are a set to check a message with. What opens with some of them
opens to the same with all of them; and the same keys, in any order and with any repetitions, give the
same answer, also when it is an error. The answers of a lookup can be gone through in any order. -/
theorem keys_are_a_set (S : CipherSuite) :
    (∀ V W : List PublicKey, PublicKey.DistinctIds S W → V ⊆ W →
      (∀ sealed reader data, Envelope.decryptThenVerify S sealed reader V = .ok data →
        Envelope.decryptThenVerify S sealed reader W = .ok data) ∧
      ∀ identity sealed v v' data, decryptWithKeys S identity sealed V v = (.ok data, v') →
        decryptWithKeys S identity sealed W v = (.ok data, v')) ∧
    (∀ V W : List PublicKey, PublicKey.DistinctIds S W → V ⊆ W → W ⊆ V →
      (∀ sealed reader, Envelope.decryptThenVerify S sealed reader V =
        Envelope.decryptThenVerify S sealed reader W) ∧
      ∀ identity sealed, decryptWithKeys S identity sealed V = decryptWithKeys S identity sealed W) ∧
    ∀ found found' : List (String × PublicKey), found.Perm found' →
      PublicKey.DistinctIds S (found.map (·.2)) → ∀ (d : Device) sealed,
        d.decryptWithKeys S sealed (found.map (·.2)) =
          d.decryptWithKeys S sealed (found'.map (·.2)) := by
  refine ⟨fun V W hids hsub => ⟨?_, ?_⟩, fun V W hids hsub hsup => ⟨?_, ?_⟩, ?_⟩
  · intro sealed reader data hok
    exact Envelope.decryptThenVerify_of_subset hids hsub hok
  · intro identity sealed v v' data hok
    exact decryptWithKeys_of_subset hids hsub hok
  · exact Envelope.decryptThenVerify_congr hids hsub hsup
  · exact decryptWithKeys_congr hids hsub hsup
  · intro found found' hperm hids d sealed
    have hkeys := hperm.map (·.2)
    unfold Device.decryptWithKeys
    rw [decryptWithKeys_congr hids hkeys.symm.subset hkeys.subset]

/-- What the second of the sender's keys sealed for the reader's vault, and where it opens. -/
theorem exists_signed : ∃ sealed,
    decryptWithKeys .transparent "bob" sealed [(senderKey 2).publicKey .transparent] readerVault =
      (.ok [1, 2, 3], readerVault) := by
  obtain ⟨sealed, tape', hsealed, hl, -⟩ := @exists_sealed_of_setApart .signed (by decide +kernel)
  have hopen : Format.signed.decrypt .transparent sealed readerKey
      ((senderKey 2).publicKey .transparent) = .ok [1, 2, 3] :=
    Format.decrypt_of_mem CipherSuite.transparent_agrees CipherSuite.transparent_opens
      CipherSuite.transparent_accepts (PublicKey.distinctIds_singleton _ _) hsealed (by decide) hl
      List.mem_cons_self
  have hkey : Vault.loadKey .transparent "bob" readerVault = (.ok readerKey, readerVault) := by
    rw [Vault.loadKey_eq]
    have hloaded : readerVault.keys.loaded .transparent "bob" = .ok readerKey := by decide +kernel
    rw [hloaded]
  refine ⟨sealed, ?_⟩
  rw [decryptWithKeys_run (List.cons_ne_nil _ _) (Format.addressed hsealed hl).ne_nil hkey]
  rw [show Envelope.decryptThenVerify .transparent sealed readerKey _ = _ from hopen]
  rfl

/-- A message of the second key opens as well with three keys, in two orders and with one of them
twice. -/
theorem opens_with_more_keys :
    let key (n : Nat) : PublicKey := (senderKey n).publicKey .transparent
    ∃ sealed,
      decryptWithKeys .transparent "bob" sealed [key 1, key 2, key 3] readerVault =
        (.ok [1, 2, 3], readerVault) ∧
      decryptWithKeys .transparent "bob" sealed [key 3, key 1, key 3, key 2] readerVault =
        (.ok [1, 2, 3], readerVault) := by
  intro key
  obtain ⟨hgrow, hsame, -⟩ := keys_are_a_set .transparent
  obtain ⟨sealed, hopen⟩ := exists_signed
  have hthree := (hgrow [key 2] [key 1, key 2, key 3] (by decide +kernel) (by simp)).2 "bob" sealed
    readerVault readerVault [1, 2, 3] hopen
  refine ⟨sealed, hthree, ?_⟩
  rw [← (hsame [key 1, key 2, key 3] [key 3, key 1, key 3, key 2] (by decide +kernel) (by simp)
    (by simp)).2 "bob" sealed]
  exact hthree

/-! ## How a check ends -/

namespace Format

/-- The octets are a message in the format that opens for the reader, with data that can be read. -/
def OpensTo (S : CipherSuite) (sealed : Octets) (reader : KeyPair) (data : Octets) : Format → Prop
  | authenticated => ∃ e signature, Signing.Presents S sealed reader data e signature
  | signed => ∃ e, Envelope.decode sealed = .ok e ∧
      Envelope.disclose S e .signThenEncrypt reader = .ok data

variable {format : Format}

theorem OpensTo.ne_nil (h : format.OpensTo S sealed reader data) : sealed ≠ [] := by
  rintro rfl
  cases format with
  | authenticated =>
    obtain ⟨e, signature, hpresents⟩ := h
    cases hpresents.decode
  | signed =>
    obtain ⟨e, hdecode, -⟩ := h
    cases hdecode

end Format

/-- How checking an opened message ends: with the answer, with a signature that is not valid, or with
the error of an unusable key among those that were given. -/
inductive Verdict {α : Type} (S : CipherSuite) (given : List PublicKey) (answer : Except Error α) :
    Except Error α → Prop where
  | accepted : Verdict S given answer answer
  | refused : Verdict S given answer (.error .signatureVerification)
  | unusable {key : PublicKey} (mem : key ∈ given) (unfit : S.isSigningKey key.signing = false) :
      Verdict S given answer (.error (.crypto PublicKey.unusable))

/-- With usable keys, what is not accepted is reported as a signature that is not valid. -/
theorem Verdict.of_usable {α : Type} {given : List PublicKey} {answer r : Except Error α}
    (h : Verdict S given answer r) (husable : ∀ k ∈ given, S.isSigningKey k.signing = true) :
    r = answer ∨ r = .error .signatureVerification := by
  cases h with
  | accepted => exact .inl rfl
  | refused => exact .inr rfl
  | unusable mem unfit => rw [husable _ mem] at unfit; cases unfit

/-- Checking with one of the given keys. -/
theorem Verdict.of_verify {given : List PublicKey} {key : PublicKey} (hmem : key ∈ given)
    (message : Octets) (signature : Signature) :
    Verdict S given (.ok data)
      (((key.verify S message signature).map fun _ => data).mapError Error.ofDecryption) := by
  cases hkey : S.isSigningKey key.signing with
  | false =>
    rw [PublicKey.verify_of_unusable hkey]
    exact .unusable hmem hkey
  | true =>
    rw [PublicKey.verify_of_usable hkey]
    split
    · exact .accepted
    · exact .refused

theorem Verdict.of_vouched (given : List PublicKey) (h : Envelope.Header) (data : Octets) :
    Verdict S given (.ok data) ((Envelope.vouched S given h data).mapError Error.ofDecryption) := by
  unfold Envelope.vouched
  cases h.signerId with
  | none => exact .refused
  | some id =>
    cases h.signature with
    | none => exact .refused
    | some signature =>
      dsimp only
      cases hfound : given.find? (fun k => k.keyId S = id) with
      | none => exact .refused
      | some key => exact .of_verify (List.mem_of_find?_eq_some hfound) data signature

/-- A text is what was accepted, read as a text. -/
theorem Verdict.toText {given : List PublicKey} {r : Except Error Octets}
    (h : Verdict S given (.ok data) r) : Verdict S given (plainText data) (r.bind plainText) := by
  cases h with
  | accepted => exact .accepted
  | refused => exact .refused
  | unusable mem unfit => exact .unusable mem unfit

namespace Format

variable {format : Format}

/-- An opened authenticated message is checked with the key that is given. -/
theorem authDecrypt_of_presents {e : Envelope} {signature : Signature}
    (h : Signing.Presents S sealed reader data e signature) (key : PublicKey) :
    Envelope.authDecrypt S sealed reader key =
      (key.verify S (Envelope.authenticatedDigest S e.header data) signature).map fun _ => data := by
  obtain ⟨body, hbody, hparts⟩ := h.disclose
  unfold Envelope.authDecrypt
  rw [h.decode]
  dsimp only [bind, Except.bind]
  rw [hbody]
  dsimp only
  rw [hparts]
  dsimp only
  cases key.verify S (Envelope.authenticatedDigest S e.header data) signature <;> rfl

theorem OpensTo.decryptThenVerify (h : signed.OpensTo S sealed reader data) (keys : List PublicKey) :
    Verdict S keys (.ok data)
      ((Envelope.decryptThenVerify S sealed reader keys).mapError Error.ofDecryption) := by
  obtain ⟨e, hdecode, hdisclose⟩ := h
  rw [Envelope.decryptThenVerify_eq, hdecode]
  dsimp only [bind, Except.bind]
  rw [hdisclose]
  exact .of_vouched keys e.header data

theorem OpensTo.decrypt (h : format.OpensTo S sealed reader data) (key : PublicKey) :
    Verdict S [key] (.ok data) ((format.decrypt S sealed reader key).mapError Error.ofDecryption) := by
  cases format with
  | authenticated =>
    obtain ⟨e, signature, hpresents⟩ := h
    rw [Format.decrypt, authDecrypt_of_presents hpresents]
    exact .of_verify List.mem_cons_self _ _
  | signed => exact h.decryptThenVerify [key]

end Format

/-- Reading a text runs what opens its octets. -/
theorem readText_run {text : String} (htext : decodeText text = .ok sealed)
    {opening : Octets → Action Vault Octets} {v : Vault} {r : Except Error Octets}
    (hrun : opening sealed v = (r, v)) : readText text opening v = (r.bind plainText, v) := by
  rw [readText, htext, Action.bind_ok (Action.lift_run _ _), Action.bind_run, hrun]
  cases r <;> rfl

/-- A signature check ends well or with a signature that is not valid, if the key is usable, and with
the error of an unusable key otherwise. So does opening any message whose envelope opens for the
vault's own key, in each format, for a time, with several keys, and as a text: what is not accepted is
reported as a signature that is not valid, unless one of the keys that were given is unusable. An
authenticated message is never accepted or refused under an unusable key: the error is the key's. -/
theorem check_ends (S : CipherSuite) :
    (∀ (key : PublicKey) (message : Octets) (signature : Signature),
      (S.isSigningKey key.signing = true → key.verify S message signature = .ok () ∨
        key.verify S message signature = .error .signatureNotValid) ∧
      (S.isSigningKey key.signing = false →
        key.verify S message signature = .error PublicKey.unusable)) ∧
    ∀ (identity : String) (v : Vault) (own : KeyPair),
      Vault.loadKey S identity v = (.ok own, v) →
      ∀ (format : Format) (sealed data : Octets), format.OpensTo S sealed own data →
        (∀ sender : Option PublicKey, ∃ r, decrypt S format identity sealed sender v = (r, v) ∧
          Verdict S [sender.getD (own.publicKey S)] (.ok data) r ∧
          ∀ text, decodeText text = .ok sealed → ∃ r, decryptText S format identity text sender v =
            (r, v) ∧ Verdict S [sender.getD (own.publicKey S)] (plainText data) r) ∧
        (∀ (chain : CardChain) (asOf : Timestamp), ∃ r,
          decryptAt S format identity sealed chain asOf v = (r, v) ∧
          Verdict S [(chain.cardAt asOf).publicKey] (.ok data) r ∧
          ∀ text, decodeText text = .ok sealed → ∃ r,
            decryptTextAt S format identity text chain asOf v = (r, v) ∧
              Verdict S [(chain.cardAt asOf).publicKey] (plainText data) r) ∧
        (format = .signed → ∀ keys : List PublicKey, keys ≠ [] → ∃ r,
          decryptWithKeys S identity sealed keys v = (r, v) ∧ Verdict S keys (.ok data) r) ∧
        (format = .authenticated → ∀ key : PublicKey, S.isSigningKey key.signing = false →
          decrypt S format identity sealed (some key) v = (.error (.crypto PublicKey.unusable), v)) := by
  refine ⟨fun key message signature => ⟨fun husable => ?_, PublicKey.verify_of_unusable⟩, ?_⟩
  · rw [PublicKey.verify_of_usable husable]
    split
    · exact .inl rfl
    · exact .inr rfl
  intro identity v own hkey format sealed data hopens
  have hrun (sender : Option PublicKey) : decrypt S format identity sealed sender v = _ :=
    decrypt_run hopens.ne_nil hkey sender
  have hverdict (sender : Option PublicKey) := hopens.decrypt (sender.getD (own.publicKey S))
  refine ⟨fun sender => ?_, fun chain asOf => ?_, ?_, ?_⟩
  · refine ⟨_, hrun sender, hverdict sender, fun text htext => ?_⟩
    exact ⟨_, readText_run htext (hrun sender), (hverdict sender).toText⟩
  · refine ⟨_, hrun (some (chain.cardAt asOf).publicKey), hverdict (some _), fun text htext => ?_⟩
    exact ⟨_, readText_run htext (hrun (some (chain.cardAt asOf).publicKey)),
      (hverdict (some _)).toText⟩
  · rintro rfl keys hne
    exact ⟨_, decryptWithKeys_run hne hopens.ne_nil hkey, hopens.decryptThenVerify keys⟩
  · rintro rfl key hunfit
    obtain ⟨e, signature, hpresents⟩ := hopens
    rw [hrun (some key), Option.getD_some, Format.decrypt, Format.authDecrypt_of_presents hpresents,
      PublicKey.verify_of_unusable hunfit]
    rfl

/-- The suite that hides nothing, except that the zero key can verify nothing. -/
def zeroUnusable : CipherSuite :=
  { CipherSuite.transparent with isSigningKey := fun key => decide (key ≠ .zero 32) }

/-- A message of the second key is opened for the reader's vault with usable keys, and it is accepted or
refused; with the zero key it ends in that key's error. -/
theorem check_ends_with_zero_key : ∃ sealed : Octets,
    (∀ n ∈ [1, 2], ∃ r, decrypt zeroUnusable .authenticated "bob" sealed
      (some ((senderKey n).publicKey zeroUnusable)) readerVault = (r, readerVault) ∧
        (r = .ok [1, 2, 3] ∨ r = .error .signatureVerification)) ∧
    decrypt zeroUnusable .authenticated "bob" sealed (some ⟨.zero 32, .zero 32⟩) readerVault =
      (.error (.crypto PublicKey.unusable), readerVault) := by
  have hkey : Vault.loadKey zeroUnusable "bob" readerVault = (.ok readerKey, readerVault) := by
    rw [Vault.loadKey_eq]
    have hloaded : readerVault.keys.loaded zeroUnusable "bob" = .ok readerKey := by decide +kernel
    rw [hloaded]
  have hsealed : ((Envelope.authEncrypt zeroUnusable [1, 2, 3] (senderKey 2)
      [readerKey.publicKey zeroUnusable] (.ofSeed 2)).1.toOption.any fun sealed =>
        decide (Envelope.authDecrypt zeroUnusable sealed readerKey
          ((senderKey 2).publicKey zeroUnusable) = .ok [1, 2, 3])) = true := by decide +kernel
  obtain ⟨sealed, -, hopen⟩ := (Option.any_eq_true _ _).1 hsealed
  obtain ⟨e, signature, hpresents, -⟩ := Signing.presents_of_authDecrypt (of_decide_eq_true hopen)
  obtain ⟨hends, -, -, hunfit⟩ := (check_ends zeroUnusable).2 "bob" readerVault readerKey hkey
    .authenticated sealed [1, 2, 3] ⟨e, signature, hpresents⟩
  have husable : ∀ n ∈ [1, 2], zeroUnusable.isSigningKey
      ((senderKey n).publicKey zeroUnusable).signing = true := by decide +kernel
  refine ⟨sealed, fun n hn => ?_, hunfit rfl _ (by decide +kernel)⟩
  obtain ⟨r, hrun, hverdict, -⟩ := hends (some ((senderKey n).publicKey zeroUnusable))
  refine ⟨r, hrun, hverdict.of_usable fun k hk => ?_⟩
  rw [List.mem_singleton.1 hk]
  exact husable n hn

/-- No point of the curve has the second coordinate 2, so a key with that signing half verifies nothing,
and this is not reported as a signature that is not valid. -/
theorem failed_check_not_reported :
    let key : PublicKey := ⟨.littleEndian 32 2, .zero 32⟩
    key.verify .standard [97, 98, 99] (.zero 64) ≠ .ok () ∧
      key.verify .standard [97, 98, 99] (.zero 64) ≠ .error .signatureNotValid := by
  intro key
  have hunfit : CipherSuite.standard.isSigningKey key.signing = false := by decide +kernel
  rw [PublicKey.verify_of_unusable hunfit]
  exact ⟨(by intro h; cases h), (by intro h; cases h)⟩

end Message

end EndToEnd
