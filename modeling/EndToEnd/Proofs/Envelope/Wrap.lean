/-
  The slots of a header, and that each recipient gets the content key out of its slot.

  `Wraps` says what a slot holds for a recipient. `prepare_ok` says it of all slots of a header, and
  `contentKey_of_prepare` that a recipient whose key id is its own finds the content key.
-/
import EndToEnd.Envelope.Seal
import EndToEnd.Proofs.Action

namespace EndToEnd.Envelope

variable {S : CipherSuite} {tape tape' : Tape}

/-- Locking with a fresh nonce reads twelve octets and locks with them. -/
theorem lockFresh_run (key : Block 32) (message associated : Octets) :
    lockFresh S key message associated tape =
      ((S.lock key (tape.block 12) associated message).elim
        (.error (.encryption "Encryption failed: aead::Error")) fun sealed =>
          .ok (tape.block 12, sealed), tape.skip 12) := by
  unfold lockFresh
  rw [Action.bind_ok (Action.draw_run _ _)]
  cases hl : S.lock key (tape.block 12) associated message with
  | none => simp only [Draw.block, hl]; rfl
  | some sealed => simp only [Draw.block, hl]; rfl

theorem lockFresh_ok {key : Block 32} {message associated sealed : Octets} {nonce : Block 12}
    (h : lockFresh S key message associated tape = (.ok (nonce, sealed), tape')) :
    S.lock key nonce associated message = some sealed := by
  rw [lockFresh_run] at h
  cases hl : S.lock key (tape.block 12) associated message with
  | none => rw [hl] at h; cases h
  | some o => rw [hl] at h; cases h; exact hl

/-! ## Slots -/

/-- The slot holds the content key for a recipient. -/
structure Wraps (S : CipherSuite) (content secret : Block 32) (r : KeyId × PublicKey) (s : Slot) :
    Prop where
  keyId : s.keyId = r.1
  locked : S.lock (wrapKey S (S.agree secret r.2.encryption) (S.agreePublic secret) r.1) s.nonce
    r.1.octets content.octets = some s.wrapped

theorem wrapFor_ok {content secret : Block 32} {r : KeyId × PublicKey} {s : Slot}
    (h : wrapFor S content secret r tape = (.ok s, tape')) : Wraps S content secret r s := by
  obtain ⟨id, key⟩ := r
  unfold wrapFor at h
  obtain ⟨⟨nonce, wrapped⟩, t, hl, hp⟩ := Action.of_bind_ok h
  have hlock := lockFresh_ok hl
  cases hp
  exact ⟨rfl, hlock⟩

/-- Each recipient gets a slot, and each slot is a recipient's. -/
theorem wrapAll_ok {content secret : Block 32} {rs : List (KeyId × PublicKey)} {slots : List Slot}
    (h : wrapAll S content secret rs tape = (.ok slots, tape')) :
    (∀ r ∈ rs, ∃ s ∈ slots, s.keyId = r.1) ∧ ∀ s ∈ slots, ∃ r ∈ rs, Wraps S content secret r s := by
  induction rs generalizing slots tape with
  | nil =>
    cases h
    exact ⟨nofun, nofun⟩
  | cons r rs ih =>
    obtain ⟨slot, t, hslot, h⟩ := Action.of_bind_ok h
    obtain ⟨others, u, hothers, h⟩ := Action.of_bind_ok h
    cases h
    have hw := wrapFor_ok hslot
    obtain ⟨hall, heach⟩ := ih hothers
    constructor
    · intro r' hr'
      rcases List.mem_cons.1 hr' with rfl | hr'
      · exact ⟨slot, List.mem_cons_self, hw.keyId⟩
      · obtain ⟨s, hs, hid⟩ := hall r' hr'
        exact ⟨s, List.mem_cons_of_mem _ hs, hid⟩
    · intro s hs
      rcases List.mem_cons.1 hs with rfl | hs
      · exact ⟨r, List.mem_cons_self, hw⟩
      · obtain ⟨r', hr', hw'⟩ := heach s hs
        exact ⟨r', List.mem_cons_of_mem _ hr', hw'⟩

/-- A distinct recipient is one of the recipients, under its own key id. -/
theorem of_mem_distinctFrom {seen : List KeyId} {keys : List PublicKey} {r : KeyId × PublicKey}
    (h : r ∈ distinctFrom S seen keys) : r.1 = r.2.keyId S ∧ r.2 ∈ keys := by
  induction keys generalizing seen with
  | nil => cases h
  | cons k keys ih =>
    unfold distinctFrom at h
    dsimp only at h
    split at h
    · obtain ⟨hid, hk⟩ := ih h
      exact ⟨hid, List.mem_cons_of_mem _ hk⟩
    · rcases List.mem_cons.1 h with rfl | h
      · exact ⟨rfl, List.mem_cons_self⟩
      · obtain ⟨hid, hk⟩ := ih h
        exact ⟨hid, List.mem_cons_of_mem _ hk⟩

/-- The key id of each recipient is met, unless it was seen before. -/
theorem exists_mem_distinctFrom {seen : List KeyId} {keys : List PublicKey} {k : PublicKey}
    (hk : k ∈ keys) (hs : k.keyId S ∉ seen) : ∃ r ∈ distinctFrom S seen keys, r.1 = k.keyId S := by
  induction keys generalizing seen with
  | nil => cases hk
  | cons a keys ih =>
    unfold distinctFrom
    dsimp only
    split
    · rename_i ha
      rcases List.mem_cons.1 hk with rfl | hk
      · exact absurd ha hs
      · exact ih hk hs
    · by_cases hid : k.keyId S = a.keyId S
      · exact ⟨_, List.mem_cons_self, hid.symm⟩
      · rcases List.mem_cons.1 hk with rfl | hk
        · exact absurd rfl hid
        · have hs' : k.keyId S ∉ a.keyId S :: seen := by simp [hid, hs]
          obtain ⟨r, hr, hrk⟩ := ih hk hs'
          exact ⟨r, List.mem_cons_of_mem _ hr, hrk⟩

/-- The slots stand in the order of the recipients. -/
theorem wrapAll_keyIds {content secret : Block 32} {rs : List (KeyId × PublicKey)} {slots : List Slot}
    (h : wrapAll S content secret rs tape = (.ok slots, tape')) :
    slots.map (·.keyId) = rs.map (·.1) := by
  induction rs generalizing slots tape with
  | nil =>
    cases h
    rfl
  | cons r rs ih =>
    obtain ⟨slot, t, hslot, h⟩ := Action.of_bind_ok h
    obtain ⟨others, u, hothers, h⟩ := Action.of_bind_ok h
    cases h
    rw [List.map_cons, List.map_cons, (wrapFor_ok hslot).keyId, ih hothers]

/-- The distinct recipients are met in the order in which their key ids first occur. -/
theorem map_distinctFrom (seen : List KeyId) (keys : List PublicKey) :
    (distinctFrom S seen keys).map (·.1) =
      ((keys.map (·.keyId S)).filter fun id => id ∉ seen).eraseDups := by
  induction keys generalizing seen with
  | nil => rfl
  | cons k keys ih =>
    rw [distinctFrom, List.map_cons]
    by_cases hk : k.keyId S ∈ seen
    · rw [if_pos hk, ih, List.filter_cons_of_neg (by simpa using hk)]
    · rw [if_neg hk, List.map_cons, ih, List.filter_cons_of_pos (by simpa using hk),
        List.eraseDups_cons, List.filter_filter]
      congr 2
      refine List.filter_congr fun id _ => ?_
      rw [Bool.eq_iff_iff]
      simp [and_comm]

/-! ## Headers -/

/-- A header that was prepared: it is open to exactly the recipients. -/
structure Prepared (S : CipherSuite) (recipients : List PublicKey) (mode : Mode)
    (content secret : Block 32) (h : Header) : Prop where
  unsigned : h = .unsigned mode (S.agreePublic secret) h.slots
  all : ∀ k ∈ recipients, ∃ s ∈ h.slots, s.keyId = k.keyId S
  each : ∀ s ∈ h.slots, ∃ k ∈ recipients, Wraps S content secret (k.keyId S, k) s

theorem prepare_ok {mode : Mode} {recipients : List PublicKey} {content : Block 32} {h : Header}
    (hp : prepare S mode recipients tape = (.ok (content, h), tape')) :
    ∃ secret, Prepared S recipients mode content secret h := by
  unfold prepare at hp
  rw [Action.bind_ok (Action.draw_run _ _), Action.bind_ok (Action.draw_run _ _)] at hp
  obtain ⟨slots, t, hslots, hp⟩ := Action.of_bind_ok hp
  obtain ⟨hall, heach⟩ := wrapAll_ok hslots
  cases hp
  refine ⟨_, rfl, ?_, ?_⟩
  · intro k hk
    have hunseen : k.keyId S ∉ [] := List.not_mem_nil
    obtain ⟨r, hr, hid⟩ := exists_mem_distinctFrom hk hunseen
    obtain ⟨s, hs, hsr⟩ := hall r hr
    exact ⟨s, hs, hsr.trans hid⟩
  · intro s hs
    obtain ⟨r, hr, hw⟩ := heach s hs
    obtain ⟨hid, hk⟩ := of_mem_distinctFrom hr
    refine ⟨r.2, hk, ?_⟩
    rwa [← hid]

/-- A prepared header names each key id once, in order of first occurrence. -/
theorem recipientIds_of_prepare {mode : Mode} {recipients : List PublicKey} {content : Block 32}
    {h : Header} (hp : prepare S mode recipients tape = (.ok (content, h), tape')) :
    h.recipientIds = (recipients.map (·.keyId S)).eraseDups := by
  unfold prepare at hp
  rw [Action.bind_ok (Action.draw_run _ _), Action.bind_ok (Action.draw_run _ _)] at hp
  obtain ⟨slots, t, hslots, hp⟩ := Action.of_bind_ok hp
  have hids := wrapAll_keyIds hslots
  cases hp
  refine hids.trans ((map_distinctFrom [] recipients).trans ?_)
  rw [List.filter_eq_self.2 fun _ _ => decide_eq_true List.not_mem_nil]

/-- A recipient finds the content key, if no other recipient has its key id. -/
theorem Prepared.contentKey {recipients : List PublicKey} {mode : Mode} {content secret : Block 32}
    {h : Header} (hp : Prepared S recipients mode content secret h) (ha : S.Agrees) (ho : S.Opens)
    {recipient : KeyPair} (hmem : recipient.publicKey S ∈ recipients)
    (hid : ∀ k ∈ recipients, k.keyId S = recipient.keyId S → k = recipient.publicKey S) :
    h.contentKey S recipient = .ok content := by
  have heph : h.ephemeral = S.agreePublic secret := by rw [hp.unsigned]; rfl
  obtain ⟨s₀, hs₀, hs₀id⟩ := hp.all _ hmem
  have hfind : (h.slots.find? fun s => s.keyId = recipient.keyId S).isSome :=
    List.find?_isSome.2 ⟨s₀, hs₀, decide_eq_true hs₀id⟩
  obtain ⟨s, hs⟩ := Option.isSome_iff_exists.1 hfind
  have hsid : s.keyId = recipient.keyId S := by simpa using List.find?_some hs
  obtain ⟨k, hk, hw⟩ := hp.each s (List.mem_of_find?_eq_some hs)
  -- the slot that is found was made for the recipient's own key
  obtain rfl : k = recipient.publicKey S := hid k hk (hw.keyId.symm.trans hsid)
  have hlock := hw.locked
  have hshared : S.agree recipient.encryption h.ephemeral =
      S.agree secret (recipient.publicKey S).encryption := by
    rw [heph]
    exact ha _ _
  unfold Header.contentKey
  dsimp only
  rw [hs]
  dsimp only
  rw [hshared, heph]
  unfold unlock
  rw [show recipient.keyId S = (recipient.publicKey S).keyId S from rfl, ho _ _ _ _ _ hlock]
  simp [contentKeyOfOctets]

end EndToEnd.Envelope
