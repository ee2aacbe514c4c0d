/-
  Messages opened with the key that their sender had at a time.

  A message is opened for a time with one card of the sender's chain. Where this is the card of the key
  that sealed it, its readers get the data; every other card has to refuse the signature. In the one
  format the signature is over the digest of header and data and is checked with whatever key is given;
  in the other it is over the data, and the id of its key stands next to it. So what is asked of the
  other cards' keys is said for what was signed (`signedOctets`), in both formats alike.

  Proved:
  * `Format.decrypt_of_refuses`: a message does not open with a key that refuses its signature.
  * `decryptAt_eq`: a message opens for a time with the key of the card in force then.
  * `decryptAt_inForce`: it opens for exactly the times at which the card of its key was in force.
-/
import EndToEnd.Proofs.Card.Dated
import EndToEnd.Proofs.Envelope.Size
import EndToEnd.Proofs.Message.RoundTrip

namespace EndToEnd.Message

variable {S : CipherSuite} {format : Format} {data sealed : Octets} {signer reader : KeyPair}
  {readers : List PublicKey} {tape tape' : Tape}

namespace Format

/-- What is signed in a message of data. -/
def signedOctets (S : CipherSuite) (data sealed : Octets) : Format → Octets
  | authenticated =>
    match Envelope.decode sealed with
    | .ok e => Envelope.authenticatedDigest S e.header data
    | .error _ => []
  | signed => data

/-- A usable key with another id than the signer's, under which the signature of a message is not
accepted. -/
structure Refuses (S : CipherSuite) (format : Format) (signer : KeyPair) (data sealed : Octets)
    (key : PublicKey) : Prop where
  usable : S.isSigningKey key.signing = true
  otherId : key.keyId S ≠ signer.keyId S
  refused : S.verify key.signing (format.signedOctets S data sealed)
    (signer.sign S (format.signedOctets S data sealed)) = false

theorem verify_of_refused {key : PublicKey} {message : Octets} {signature : Signature}
    (hkey : S.isSigningKey key.signing = true) (h : S.verify key.signing message signature = false) :
    key.verify S message signature = .error .signatureNotValid := by
  have hcheck : key.checkSigning S = .ok () := if_pos hkey
  unfold PublicKey.verify
  rw [hcheck]
  dsimp only
  rw [h]
  rfl

/-- A reader does not open a message with a key that refuses its signature. -/
theorem decrypt_of_refuses (ha : S.Agrees) (ho : S.Opens) (hids : PublicKey.DistinctIds S readers)
    (h : format.encrypt S data signer readers tape = (.ok sealed, tape')) (hd : Addressable data)
    (hl : Addressable sealed) (hmem : reader.publicKey S ∈ readers) {key : PublicKey}
    (hkey : format.Refuses S signer data sealed key) :
    format.decrypt S sealed reader key = .error .signatureNotValid := by
  cases format with
  | authenticated =>
    obtain ⟨e, rfl, hmode, he⟩ := Envelope.authEncrypt_ok h
    have hdecode := he.decode hl
    have hrefused := hkey.refused
    rw [signedOctets, hdecode] at hrefused
    show Envelope.authDecrypt S _ reader key = _
    unfold Envelope.authDecrypt
    rw [hdecode]
    dsimp only [bind, Except.bind]
    rw [he.disclose_of_mem ha ho hids hmode hmem]
    dsimp only
    rw [Envelope.decodeBody_encodeBody hd]
    dsimp only
    rw [verify_of_refused hkey.usable hrefused]
  | signed =>
    obtain ⟨e, rfl, hmode, hid, hsignature, he⟩ := Envelope.signThenEncrypt_ok h
    have hnone : [key].find? (fun k => k.keyId S = signer.keyId S) = none := by
      rw [List.find?_eq_none]
      intro k hk hsame
      rw [List.mem_singleton.1 hk] at hsame
      exact hkey.otherId (of_decide_eq_true hsame)
    show Envelope.decryptThenVerify S _ reader [key] = _
    unfold Envelope.decryptThenVerify
    rw [he.decode hl]
    dsimp only [bind, Except.bind]
    rw [he.disclose_of_mem ha ho hids hmode hmem, hid, hsignature]
    dsimp only
    rw [hnone]
    rfl

end Format

variable {v : Vault} {identity : String} {chain : CardChain} {asOf : Timestamp}

/-- A message opens for a time with the key of the card in force then. -/
theorem decryptAt_eq (hs : sealed ≠ []) (hkey : Vault.loadKey S identity v = (.ok reader, v)) :
    decryptAt S format identity sealed chain asOf v =
      ((format.decrypt S sealed reader (chain.cardAt asOf).publicKey).mapError Error.ofDecryption,
        v) := by
  rw [decryptAt, decrypt_run hs hkey]
  rfl

/-- The card for a time is the first one of the chain that is not later, or the oldest one; in a falling
chain it is not an older one for a later time. A message that was sealed with the key of a card opens
for the times at which that card was in force, and for no other time: then the signature is refused,
if the keys of the other cards refuse it. -/
theorem decryptAt_inForce (hfall : chain.cards.Pairwise fun c d => d.createdAt < c.createdAt) :
    (∀ asOf, chain.cardAt asOf =
      (chain.cards.find? fun c => decide (c.createdAt ≤ asOf)).getD
        (chain.ancestors.getLastD chain.head)) ∧
    (∀ asOf asOf', asOf ≤ asOf' →
      (chain.cardAt asOf).createdAt ≤ (chain.cardAt asOf').createdAt) ∧
    (S.Agrees → S.Opens → S.Accepts →
      ∀ (newer older : List Card) (c : Card), chain.cards = newer ++ c :: older →
      ∀ (format : Format) (data sealed : Octets) (signer reader : KeyPair) (readers : List PublicKey)
        (tape tape' : Tape), c.publicKey = signer.publicKey S →
        format.encrypt S data signer readers tape = (.ok sealed, tape') →
        reader.publicKey S ∈ readers → PublicKey.DistinctIds S readers →
        Addressable data → Addressable sealed →
        (∀ d ∈ newer ++ older, format.Refuses S signer data sealed d.publicKey) →
      ∀ (identity : String) (v : Vault), Vault.loadKey S identity v = (.ok reader, v) →
      ∀ asOf,
        (CardChain.InForce newer c older asOf →
          decryptAt S format identity sealed chain asOf v = (.ok data, v)) ∧
        (¬ CardChain.InForce newer c older asOf →
          decryptAt S format identity sealed chain asOf v = (.error .signatureVerification, v))) := by
  refine ⟨fun asOf => CardChain.walkTo_eq_find? asOf _ _,
    fun asOf asOf' hle => CardChain.walkTo_mono hle hfall, ?_⟩
  intro ha ho hc newer older c hcards format data sealed signer reader readers tape tape' hsigner
    hsealed hmem hids hd hl hothers identity v hkey asOf
  have hne := (Format.addressed hsealed hl).ne_nil
  have hiff : chain.cardAt asOf = c ↔ CardChain.InForce newer c older asOf :=
    CardChain.cardAt_eq_iff hcards hfall
  rw [decryptAt_eq hne hkey]
  constructor
  · intro hforce
    rw [hiff.2 hforce, hsigner, Format.decrypt_of_mem ha ho hc hids hsealed hd hl hmem]
    rfl
  · intro hforce
    have hother : chain.cardAt asOf ∈ newer ++ older := by
      have hcard : chain.cardAt asOf ∈ newer ++ c :: older := by
        rw [← hcards]
        exact CardChain.walkTo_mem asOf _ _
      rcases List.mem_append.1 hcard with hcard | hcard
      · exact List.mem_append_left _ hcard
      rcases List.mem_cons.1 hcard with hcard | hcard
      · exact absurd (hiff.1 hcard) hforce
      · exact List.mem_append_right _ hcard
    rw [Format.decrypt_of_refuses ha ho hids hsealed hd hl hmem (hothers _ hother)]
    rfl

section Examples

/-- A key pair of the sender, by its number. -/
def senderKey (n : Nat) : KeyPair := ⟨.littleEndian 32 n, .zero 32⟩

/-- The card of the sender for the key with a number. -/
def senderCard (n : Nat) (createdAt : Timestamp) : Card :=
  ⟨"", "ada", (senderKey n).publicKey .transparent, createdAt, false, none, ⟨[], .zero 64⟩⟩

/-- The sender's cards: one for each of three keys. -/
def threeCards : CardChain := ⟨senderCard 3 30, [senderCard 2 20, senderCard 1 10]⟩

/-- The key pair of the reader. -/
def readerKey : KeyPair := ⟨.zero 32, .littleEndian 32 9⟩

/-- The vault of the reader. -/
def readerVault : Vault :=
  (Vault.storeKey .transparent "bob" readerKey ⟨.empty none, .ofSeed 1⟩).2

/-- What the second of the sender's keys seals for the reader. -/
def bySecondKey (format : Format) : Except CryptoError Octets × Tape :=
  format.encrypt .transparent [1, 2, 3] (senderKey 2) [readerKey.publicKey .transparent] (.ofSeed 2)

/-- Whether something short was sealed, and the first and the third key refuse it. -/
def setApart (format : Format) : Bool :=
  (bySecondKey format).1.toOption.any fun sealed =>
    let message := format.signedOctets .transparent [1, 2, 3] sealed
    let signature := (senderKey 2).sign .transparent message
    decide (sealed.length < 1000) &&
      [senderKey 1, senderKey 3].all fun k =>
        decide (k.keyId .transparent ≠ (senderKey 2).keyId .transparent) &&
          !CipherSuite.transparent.verify (k.publicKey .transparent).signing message signature

theorem exists_sealed_of_setApart {format : Format} (h : setApart format = true) :
    ∃ sealed tape', bySecondKey format = (.ok sealed, tape') ∧ Addressable sealed ∧
      ∀ d ∈ [senderCard 3 30] ++ [senderCard 1 10],
        format.Refuses .transparent (senderKey 2) [1, 2, 3] sealed d.publicKey := by
  unfold setApart at h
  cases hrun : bySecondKey format with
  | mk r tape' =>
    rw [hrun] at h
    cases r with
    | error e => cases h
    | ok sealed =>
      obtain ⟨hshort, hkeys⟩ := Bool.and_eq_true_iff.1 h
      have hrefuses (k : KeyPair) (hk : k ∈ [senderKey 1, senderKey 3]) :
          format.Refuses .transparent (senderKey 2) [1, 2, 3] sealed (k.publicKey .transparent) := by
        obtain ⟨hid, hrefused⟩ := Bool.and_eq_true_iff.1 (List.all_eq_true.1 hkeys k hk)
        exact ⟨rfl, of_decide_eq_true hid, by simpa using hrefused⟩
      refine ⟨sealed, tape', rfl, Nat.lt_trans (of_decide_eq_true hshort) (by decide), fun d hd => ?_⟩
      rcases List.mem_cons.1 hd with rfl | hd
      · exact hrefuses (senderKey 3) (by simp)
      · rw [List.mem_singleton.1 hd]
        exact hrefuses (senderKey 1) (by simp)

/-- Of a sender with three cards, a message that the second key sealed opens from the second card's time
on until the third one's, in both formats. -/
theorem opens_between_rotations :
    (∃ sealed,
      decryptAt .transparent .authenticated "bob" sealed threeCards 20 readerVault =
        (.ok [1, 2, 3], readerVault) ∧
      decryptAt .transparent .authenticated "bob" sealed threeCards 30 readerVault =
        (.error .signatureVerification, readerVault)) ∧
    ∃ sealed,
      decryptAt .transparent .signed "bob" sealed threeCards 29 readerVault =
        (.ok [1, 2, 3], readerVault) ∧
      decryptAt .transparent .signed "bob" sealed threeCards 19 readerVault =
        (.error .signatureVerification, readerVault) := by
  have hfall : threeCards.cards.Pairwise fun c d => d.createdAt < c.createdAt := by decide +kernel
  have hkey : Vault.loadKey .transparent "bob" readerVault = (.ok readerKey, readerVault) := by
    rw [Vault.loadKey_eq]
    have hloaded : readerVault.keys.loaded .transparent "bob" = .ok readerKey := by decide +kernel
    rw [hloaded]
  have hids := PublicKey.distinctIds_singleton .transparent (readerKey.publicKey .transparent)
  have hlaw := (@decryptAt_inForce .transparent threeCards hfall).2.2
    CipherSuite.transparent_agrees CipherSuite.transparent_opens CipherSuite.transparent_accepts
    [senderCard 3 30] [senderCard 1 10] (senderCard 2 20) rfl
  have hinside (asOf : Timestamp) (hle : 20 ≤ asOf) (hlt : asOf < 30) :
      CardChain.InForce [senderCard 3 30] (senderCard 2 20) [senderCard 1 10] asOf := by
    refine ⟨fun _ => hle, fun next hnext => ?_⟩
    rw [← Option.some.inj hnext]
    exact hlt
  constructor
  · obtain ⟨sealed, tape', hsealed, hl, hothers⟩ :=
      @exists_sealed_of_setApart .authenticated (by decide +kernel)
    have hopens := hlaw .authenticated [1, 2, 3] sealed (senderKey 2) readerKey _ _ tape' rfl hsealed
      List.mem_cons_self hids (by decide) hl hothers "bob" readerVault hkey
    refine ⟨sealed, (hopens 20).1 (hinside 20 (by decide) (by decide)), (hopens 30).2 fun hforce => ?_⟩
    exact absurd (hforce.before _ rfl) (by decide)
  · obtain ⟨sealed, tape', hsealed, hl, hothers⟩ :=
      @exists_sealed_of_setApart .signed (by decide +kernel)
    have hopens := hlaw .signed [1, 2, 3] sealed (senderKey 2) readerKey _ _ tape' rfl hsealed
      List.mem_cons_self hids (by decide) hl hothers "bob" readerVault hkey
    refine ⟨sealed, (hopens 29).1 (hinside 29 (by decide) (by decide)), (hopens 19).2 fun hforce => ?_⟩
    exact absurd (hforce.since (List.cons_ne_nil _ _)) (by decide)

end Examples

end EndToEnd.Message
