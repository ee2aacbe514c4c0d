/-
  How long an envelope is, and that a short one is always sealed.

  What a cipher locks grows by its tag, so the number of recipients and the length of the data tell the
  number of octets of a header and of a whole envelope. A cipher that locks whatever is short enough
  therefore never refuses, and what it sealed can be addressed.
-/
import EndToEnd.Proofs.Envelope.Codec
import EndToEnd.Proofs.Envelope.Refusal
import EndToEnd.Proofs.Envelope.RoundTrip

namespace EndToEnd.Envelope

variable {S : CipherSuite} {recipients : List PublicKey} {tape tape' : Tape}

/-! ## Recipients -/

/-- Key ids of which no two are the same are all named. -/
theorem eraseDups_of_nodup {ids : List KeyId} (h : ids.Nodup) : ids.eraseDups = ids := by
  induction ids with
  | nil => rfl
  | cons id ids ih =>
    obtain ⟨hid, hids⟩ := List.nodup_cons.1 h
    have hothers : ids.filter (fun other => !other == id) = ids := by
      refine List.filter_eq_self.2 fun other hmem => ?_
      have hne : other ≠ id := fun he => hid (he ▸ hmem)
      simpa using hne
    rw [List.eraseDups_cons, hothers, ih hids]

/-- No more key ids are named than there are. -/
theorem length_eraseDups_le : ∀ ids : List KeyId, ids.eraseDups.length ≤ ids.length
  | [] => Nat.le_refl _
  | id :: ids => by
    rw [List.eraseDups_cons, List.length_cons, List.length_cons]
    exact Nat.succ_le_succ (Nat.le_trans (length_eraseDups_le _) (List.length_filter_le _ _))
termination_by ids => ids.length
decreasing_by exact Nat.lt_succ_of_le (List.length_filter_le _ _)

/-! ## Headers and envelopes -/

/-- A slot holds a content key with its tag. -/
theorem Wraps.length_encode (hT : S.Tags) {content secret : Block 32} {r : KeyId × PublicKey} {s : Slot}
    (h : Wraps S content secret r s) : s.encode.length = 76 := by
  have hlocked := hT _ _ _ _ _ h.locked
  simp only [Slot.encode, encodeOctets, encodeLength, List.length_append, Block.length_octets,
    length_littleEndian, hlocked]

theorem Prepared.length_encode (hT : S.Tags) {mode : Mode} {content secret : Block 32} {h : Header}
    (hp : Prepared S recipients mode content secret h) :
    h.encode.length = 47 + 76 * h.recipientIds.length := by
  have hslots : ∀ slots : List Slot, (∀ s ∈ slots, s.encode.length = 76) →
      (slots.flatMap Slot.encode).length = 76 * slots.length := by
    intro slots hall
    induction slots with
    | nil => rfl
    | cons s slots ih =>
      have hs := hall s List.mem_cons_self
      have hothers := ih fun t ht => hall t (List.mem_cons_of_mem _ ht)
      rw [List.flatMap_cons, List.length_append, hs, hothers, List.length_cons]
      omega
  have hlength := hslots h.slots fun s hs => by
    obtain ⟨k, -, hw⟩ := hp.each s hs
    exact hw.length_encode hT
  rw [Header.recipientIds, List.length_map, Header.encode, hp.unsigned]
  simp only [Header.unsigned, encodeOption, encodeLength, List.length_cons, List.length_append,
    List.length_nil, length_littleEndian, Block.length_octets, hlength]
  omega

/-- The header that is prepared for recipients fits, if their number does. -/
theorem fits_of_prepare (hT : S.Tags) {mode : Mode} {content : Block 32} {h : Header}
    (hp : prepare S mode recipients tape = (.ok (content, h), tape'))
    (hfew : recipients.length < 256 ^ 8) : h.Fits := by
  obtain ⟨secret, hprepared⟩ := prepare_ok hp
  have hcount : h.recipientIds.length ≤ recipients.length := by
    rw [recipientIds_of_prepare hp]
    exact Nat.le_trans (length_eraseDups_le _) (Nat.le_of_eq (List.length_map _))
  rw [Header.recipientIds, List.length_map] at hcount
  refine ⟨Nat.lt_of_le_of_lt hcount hfew, fun s hs => ?_⟩
  obtain ⟨k, -, hw⟩ := hprepared.each s hs
  have hlocked := hT _ _ _ _ _ hw.locked
  rw [Block.length_octets] at hlocked
  unfold Addressable
  omega

/-- The octets of an authenticated envelope. -/
theorem length_of_authEncrypt (hT : S.Tags) {data sealed : Octets} {signer : KeyPair}
    (h : authEncrypt S data signer recipients tape = (.ok sealed, tape')) :
    sealed.length = 227 + 76 * ((recipients.map (·.keyId S)).eraseDups).length + data.length := by
  unfold authEncrypt at h
  split at h
  · cases h
  · obtain ⟨⟨content, header⟩, t, hprepare, h⟩ := Action.of_bind_ok h
    obtain ⟨secret, hp⟩ := prepare_ok hprepare
    obtain ⟨e, rfl, hheader, hlock⟩ := enclose_ok h
    have hbody := hT _ _ _ _ _ hlock
    rw [length_encodeBody] at hbody
    rw [← recipientIds_of_prepare hprepare]
    simp only [encode, encodeOctets, encodeLength, List.length_append, length_littleEndian,
      Block.length_octets, hheader, hp.length_encode hT, hbody]
    omega

/-- A cipher that locks whatever is short enough seals short data for few recipients. -/
theorem authEncrypt_runs (hT : S.Tags) {limit : Nat} (hlocks : S.LocksUpTo limit) {data : Octets}
    (hne : recipients ≠ [])
    (hheader : 47 + 76 * ((recipients.map (·.keyId S)).eraseDups).length ≤ limit)
    (hbody : data.length + 144 ≤ limit) (signer : KeyPair) (tape : Tape) :
    ∃ sealed tape', authEncrypt S data signer recipients tape = (.ok sealed, tape') := by
  have hsettles : Settles S (fun associated length => associated.length ≤ limit ∧ length ≤ limit)
      (authEncrypt S data signer recipients) := by
    refine settles_authEncrypt (fun id => ?_) (fun content secret header hp hids => ?_) hne signer
    · rw [Block.length_octets]
      omega
    · rw [hp.length_encode hT, hids]
      exact ⟨hheader, hbody⟩
  rcases hsettles tape with hrun | ⟨_, associated, length, -, ⟨ha, hl⟩, hrefused⟩
  · exact hrun
  · exact absurd (hlocks associated length ha hl) hrefused

/-- A cipher that locks whatever is short enough lets a header be prepared for any recipients. -/
theorem prepare_runs {limit : Nat} (hlocks : S.LocksUpTo limit) (hlimit : 32 ≤ limit) (mode : Mode)
    (recipients : List PublicKey) (tape : Tape) :
    ∃ content header tape', prepare S mode recipients tape = (.ok (content, header), tape') := by
  have hsettles : Settles S (fun associated length => associated.length ≤ limit ∧ length ≤ limit)
      (prepare S mode recipients) := by
    refine .prepare (fun id => ?_) _ _
    rw [Block.length_octets]
    omega
  rcases hsettles tape with ⟨⟨content, header⟩, tape', hrun⟩ |
    ⟨_, associated, length, -, ⟨ha, hl⟩, hrefused⟩
  · exact ⟨content, header, tape', hrun⟩
  · exact absurd (hlocks associated length ha hl) hrefused

end EndToEnd.Envelope
