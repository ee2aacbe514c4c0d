/-
  The slot of an identity's private key: when it may be written, and what is read from it.

  A key is stored only into an empty slot, and the key that was stored is what is loaded, whether or
  not the store seals its slots. `Locks` is what a suite must grant for the slot to be written at all.
-/
import EndToEnd.KeyStore
import EndToEnd.Proofs.CipherSuite
import EndToEnd.Proofs.Envelope.Wrap
import EndToEnd.Proofs.Octets
import EndToEnd.Proofs.Table

namespace EndToEnd

namespace KeyStore

/-- The identity has a private key in the store. -/
def hasKey (s : KeyStore) (identity : String) : Bool := s.slots.has (Vault.keySlot identity)

/-- The slot of the identity holds the key. -/
def Holds (S : CipherSuite) (s : KeyStore) (identity : String) (key : KeyPair) : Prop :=
  ∃ slot, s.slots.find? (Vault.keySlot identity) = some slot ∧
    Vault.valueOf S (Vault.keySlot identity) slot.stored s.sealing = .ok key.privateOctets

/-- What is loaded from the slot of the identity. -/
def loaded (S : CipherSuite) (s : KeyStore) (identity : String) : Except Error KeyPair :=
  match s.slots.find? (Vault.keySlot identity) with
  | none => .error .missingPrivateKey
  | some slot =>
    match Vault.valueOf S (Vault.keySlot identity) slot.stored s.sealing with
    | .error e => .error e
    | .ok value => (KeyPair.ofPrivateOctets value).mapError fun e =>
        .storageCorrupted s!"Stored private key is unreadable: {e.message}"

/-- What the store has for an identity: a key, or none. -/
def Shows (S : CipherSuite) (s : KeyStore) (identity : String) : Option KeyPair → Prop
  | none => s.hasKey identity = false
  | some key => s.Holds S identity key

end KeyStore

namespace Vault

variable {S : CipherSuite} {v v' : Vault} {identity : String} {key : KeyPair}

theorem hasKey_run (identity : String) (v : Vault) :
    hasKey identity v = (.ok (v.keys.hasKey identity), v) := rfl

theorem requireNoKey_run (identity : String) (v : Vault) :
    requireNoKey identity v =
      (if v.keys.hasKey identity then .error .privateKeyExists else .ok (), v) := by
  rw [requireNoKey, Action.bind_ok (hasKey_run identity v)]
  split <;> rfl

theorem sealing_run {α : Type} {x : Envelope.Sealing α} {r : Except CryptoError α} {tape : Tape}
    (onError : CryptoError → Error) (h : x v.tape = (r, tape)) :
    sealing onError x v = (r.mapError onError, { v with tape }) := by
  rw [sealing, h]

/-- A sealed slot is a fresh nonce and what was locked with it; nothing but locking can fail. -/
theorem sealedForm_run (S : CipherSuite) (slot : String) (value : Octets) (k : Block 32) (v : Vault) :
    (∃ e, S.lock k (v.tape.block 12) (Utf8.encode slot) value = none ∧
        storedForm S slot value (some k) v = (.error e, { v with tape := v.tape.skip 12 })) ∨
      ∃ sealed, S.lock k (v.tape.block 12) (Utf8.encode slot) value = some sealed ∧
        storedForm S slot value (some k) v =
          (.ok ((v.tape.block 12).octets ++ sealed), { v with tape := v.tape.skip 12 }) := by
  have hfresh : Envelope.lockFresh S k value (Utf8.encode slot) v.tape = _ :=
    Envelope.lockFresh_run k value (Utf8.encode slot)
  cases hl : S.lock k (v.tape.block 12) (Utf8.encode slot) value with
  | none =>
    rw [hl] at hfresh
    have hrun := sealing_run (fun e => .storageWrite s!"Failed to seal slot {slot}: {e.message}") hfresh
    exact .inl ⟨_, rfl, Action.bind_error hrun⟩
  | some sealed =>
    rw [hl] at hfresh
    have hrun := sealing_run (fun e => .storageWrite s!"Failed to seal slot {slot}: {e.message}") hfresh
    refine .inr ⟨sealed, rfl, ?_⟩
    rw [storedForm]
    exact Action.bind_ok hrun

/-- What is written into a slot gives the value back, where what was sealed opens. Writing it changes
no slot, and succeeds where the suite locks such values. -/
theorem storedForm_run (S : CipherSuite) (slot : String) (value : Octets) (sealing : Option (Block 32))
    (v : Vault) :
    ∃ tape, (∃ stored, storedForm S slot value sealing v = (.ok stored, ⟨v.keys, tape⟩) ∧
        (S.Opens → valueOf S slot stored sealing = .ok value)) ∨
      ∃ e, storedForm S slot value sealing v = (.error e, ⟨v.keys, tape⟩) ∧
        ¬ S.Locks (Utf8.encode slot) value.length := by
  cases sealing with
  | none => exact ⟨v.tape, .inl ⟨value, rfl, fun _ => rfl⟩⟩
  | some k =>
    refine ⟨v.tape.skip 12, ?_⟩
    rcases sealedForm_run S slot value k v with ⟨e, hnone, hrun⟩ | ⟨sealed, hlock, hrun⟩
    · refine .inr ⟨e, hrun, fun hl => ?_⟩
      obtain ⟨sealed, hsome⟩ := hl k (v.tape.block 12) value rfl
      rw [hnone] at hsome
      cases hsome
    · refine .inl ⟨_, hrun, fun ho => ?_⟩
      unfold valueOf
      rw [Block.take_octets_append, Block.ofOctets?_octets, Block.drop_octets_append]
      dsimp only
      rw [Envelope.unlock, ho _ _ _ _ _ hlock]
      rfl

/-- Storing a value writes a slot that gives the value back; where the value cannot be sealed, no slot
changes. -/
theorem store_run (S : CipherSuite) (slot : String) (value : Octets) (v : Vault) :
    ∃ tape, (∃ stored, store S slot value v =
          (.ok (), ⟨⟨v.keys.slots.insert ⟨slot, stored⟩, v.keys.sealing⟩, tape⟩) ∧
        (S.Opens → valueOf S slot stored v.keys.sealing = .ok value)) ∨
      ∃ e, store S slot value v = (.error e, ⟨v.keys, tape⟩) ∧ v.keys.sealing.isSome ∧
        ¬ S.Locks (Utf8.encode slot) value.length := by
  obtain ⟨tape, hform⟩ := storedForm_run S slot value v.keys.sealing v
  refine ⟨tape, ?_⟩
  rw [store, Action.bind_ok (Action.get_run v)]
  rcases hform with ⟨stored, hrun, hvalue⟩ | ⟨e, hrun, hrefused⟩
  · rw [Action.bind_ok hrun]
    exact .inl ⟨stored, rfl, hvalue⟩
  · refine .inr ⟨e, Action.bind_error hrun, ?_, hrefused⟩
    cases hsealing : v.keys.sealing with
    | some k => rfl
    | none =>
      rw [hsealing] at hrun
      cases hrun

/-- The identity's slot has come to hold the key, and no other slot has changed. -/
structure Stores (S : CipherSuite) (identity : String) (key : KeyPair) (s s' : KeyStore) : Prop where
  holds : S.Opens → s'.Holds S identity key
  others : ∀ slot ≠ keySlot identity, s'.slots.find? slot = s.slots.find? slot

/-- Storing a key where there is none: the slot holds it, or it cannot be sealed and no slot has
changed. -/
theorem storeKey_run (S : CipherSuite) (hno : v.keys.hasKey identity = false) (key : KeyPair) :
    (∃ v', storeKey S identity key v = (.ok (), v') ∧ Stores S identity key v.keys v'.keys) ∨
      ∃ e tape, storeKey S identity key v = (.error e, ⟨v.keys, tape⟩) ∧ v.keys.sealing.isSome ∧
        ¬ S.Locks (Utf8.encode (keySlot identity)) 64 := by
  have hnone : requireNoKey identity v = (.ok (), v) := by
    rw [requireNoKey_run, hno]
    rfl
  have hlength : key.privateOctets.length = 64 := by simp [KeyPair.privateOctets]
  rw [storeKey, Action.bind_ok hnone]
  obtain ⟨tape, ⟨stored, hrun, hvalue⟩ | ⟨e, hrun, hsealing, hrefused⟩⟩ :=
    store_run S (keySlot identity) key.privateOctets v
  · left
    refine ⟨_, hrun, fun ho => ⟨⟨keySlot identity, stored⟩, ?_, hvalue ho⟩, fun slot hslot => ?_⟩
    · exact (Table.find?_insert _ _ _).trans (if_pos rfl)
    · exact (Table.find?_insert _ _ _).trans (if_neg (Ne.symm hslot))
  · right
    rw [hlength] at hrefused
    exact ⟨e, tape, hrun, hsealing, hrefused⟩

/-- Loading looks at the slots only and leaves all as it is. -/
theorem loadKey_eq (S : CipherSuite) (identity : String) (v : Vault) :
    loadKey S identity v = (v.keys.loaded S identity, v) := by
  have hload : load S (keySlot identity) v = _ := rfl
  rw [loadKey, Action.bind_run, hload, load, KeyStore.loaded]
  cases v.keys.slots.find? (keySlot identity) with
  | none => rfl
  | some slot =>
    dsimp only
    cases valueOf S (keySlot identity) slot.stored v.keys.sealing with
    | error e => rfl
    | ok value => rfl

/-- What goes well after loading a key starts from a key that is loaded, and from the same vault. -/
theorem of_loadKey_bind_ok {α : Type} {f : KeyPair → Action Vault α} {a : α}
    (h : (loadKey S identity >>= f) v = (.ok a, v')) :
    ∃ key, loadKey S identity v = (.ok key, v) ∧ f key v = (.ok a, v') := by
  obtain ⟨key, u, hkey, hf⟩ := Action.of_bind_ok h
  have hu : u = v := by
    rw [loadKey_eq] at hkey
    exact (Prod.mk.inj hkey).2.symm
  rw [hu] at hkey hf
  exact ⟨key, hkey, hf⟩

theorem loadKey_of_toOption (h : (loadKey S identity v).1.toOption = some key) :
    loadKey S identity v = (.ok key, v) := by
  rw [loadKey_eq] at h ⊢
  cases hloaded : v.keys.loaded S identity with
  | error e => rw [hloaded] at h; cases h
  | ok k => rw [hloaded] at h; cases h; rfl

/-- A key that a slot holds is loaded from it. -/
theorem loadKey_run (h : v.keys.Holds S identity key) : loadKey S identity v = (.ok key, v) := by
  obtain ⟨slot, hf, hvalue⟩ := h
  have hload : load S (keySlot identity) v = (.ok (some key.privateOctets), v) := by
    rw [load, hf]
    dsimp only
    rw [hvalue]
    rfl
  rw [loadKey, Action.bind_ok hload]
  dsimp only
  rw [KeyPair.ofPrivateOctets_privateOctets]
  rfl

/-- Identities have slots of their own. -/
theorem keySlot_inj {i j : String} (h : keySlot i = keySlot j) : i = j := by
  have hlists := congrArg String.toList h
  simp only [keySlot, String.toList_append, toString] at hlists
  exact String.toList_inj.1 (List.append_cancel_left (List.append_cancel_right hlists))

end Vault

namespace KeyStore

variable {S : CipherSuite} {s s' : KeyStore} {identity : String}

theorem Shows.hasKey {key? : Option KeyPair} (h : s.Shows S identity key?) :
    s.hasKey identity = key?.isSome := by
  cases key? with
  | none => exact h
  | some key =>
    obtain ⟨slot, hfound, -⟩ := h
    rw [KeyStore.hasKey, Table.has, hfound]
    rfl

theorem Shows.loaded {key? : Option KeyPair} (h : s.Shows S identity key?) :
    s.loaded S identity = key?.elim (.error .missingPrivateKey) .ok := by
  cases key? with
  | none =>
    rw [KeyStore.loaded, Table.has_eq_false_iff.1 h]
    rfl
  | some key =>
    obtain ⟨slot, hfound, hvalue⟩ := h
    rw [KeyStore.loaded, hfound]
    dsimp only
    rw [hvalue]
    dsimp only
    rw [KeyPair.ofPrivateOctets_privateOctets]
    rfl

/-- What a store has for an identity depends on its slot and on how the store seals. -/
theorem Shows.congr {key? : Option KeyPair} (h : s.Shows S identity key?)
    (hslot : s'.slots.find? (Vault.keySlot identity) = s.slots.find? (Vault.keySlot identity))
    (hsealing : s'.sealing = s.sealing) : s'.Shows S identity key? := by
  cases key? with
  | none =>
    change s'.slots.has _ = false
    rw [Table.has, hslot]
    exact h
  | some key =>
    obtain ⟨slot, hfound, hvalue⟩ := h
    exact ⟨slot, hslot.trans hfound, by rw [hsealing]; exact hvalue⟩

/-- The store has come to have something for an identity, and has what it had for all others. -/
structure Sets (S : CipherSuite) (s : KeyStore) (identity : String) (key? : Option KeyPair)
    (s' : KeyStore) : Prop where
  shows : s'.Shows S identity key?
  others : ∀ other ≠ identity, ∀ had?, s.Shows S other had? → s'.Shows S other had?

end KeyStore

namespace Vault

variable {S : CipherSuite} {v v' : Vault} {identity : String} {key : KeyPair}

/-- Storing a key does not change how the store seals. -/
theorem sealing_storeKey (S : CipherSuite) (identity : String) (key : KeyPair) (v : Vault) :
    (storeKey S identity key v).2.keys.sealing = v.keys.sealing := by
  rw [storeKey, Action.bind_run, requireNoKey_run]
  cases v.keys.hasKey identity with
  | true => rfl
  | false =>
    obtain ⟨tape, ⟨stored, hrun, -⟩ | ⟨e, hrun, -⟩⟩ :=
      store_run S (keySlot identity) key.privateOctets v
    · simp only [Bool.false_eq_true, if_false, hrun]
    · simp only [Bool.false_eq_true, if_false, hrun]

/-- What was stored for an identity is what the store has come to have for it. -/
theorem Stores.sets {s s' : KeyStore} (h : Stores S identity key s s') (ho : S.Opens)
    (hsealing : s'.sealing = s.sealing) : s.Sets S identity (some key) s' where
  shows := h.holds ho
  others := fun _ hne _ hhad =>
    hhad.congr (h.others _ fun heq => hne (keySlot_inj heq)) hsealing

/-- A key is stored where there is none. -/
theorem storeKey_sets (ho : S.Opens) (hl : S.Locks (Utf8.encode (keySlot identity)) 64)
    (hno : v.keys.Shows S identity none) (key : KeyPair) :
    ∃ v', storeKey S identity key v = (.ok (), v') ∧ v.keys.Sets S identity (some key) v'.keys := by
  rcases storeKey_run S hno key with ⟨v', hrun, hstores⟩ | ⟨e, tape, -, -, hrefused⟩
  · have hsealing := sealing_storeKey S identity key v
    rw [hrun] at hsealing
    exact ⟨v', hrun, hstores.sets ho hsealing⟩
  · exact absurd hl hrefused

/-- A key is not stored where there is one. -/
theorem storeKey_refused (hsome : v.keys.hasKey identity = true) (key : KeyPair) :
    storeKey S identity key v = (.error .privateKeyExists, v) := by
  have hrun := requireNoKey_run identity v
  rw [hsome] at hrun
  exact Action.bind_error hrun

/-- A key that was stored is held. -/
theorem holds_of_storeKey (ho : S.Opens) (h : storeKey S identity key v = (.ok (), v')) :
    v'.keys.Holds S identity key := by
  cases hhas : v.keys.hasKey identity with
  | true =>
    rw [storeKey_refused hhas] at h
    cases h
  | false =>
    rcases storeKey_run S hhas key with ⟨w, hrun, hstores⟩ | ⟨e, tape, hrun, -⟩
    · rw [hrun] at h
      cases h
      exact hstores.holds ho
    · rw [hrun] at h
      cases h

/-- Deleting a key says whether there was one. -/
theorem deleteKey_sets (S : CipherSuite) (identity : String) (v : Vault) :
    ∃ v', deleteKey identity v = (.ok (v.keys.hasKey identity), v') ∧
      v.keys.Sets S identity none v'.keys := by
  refine ⟨_, rfl, ?_, fun other hne had? hhad => hhad.congr ?_ rfl⟩
  · exact Table.has_eq_false_iff.2 ((Table.find?_erase _ _ _).trans (if_pos rfl))
  · exact (Table.find?_erase _ _ _).trans (if_neg fun heq => hne (keySlot_inj heq))

/-! ## What is kept of the slots -/

section Kept

variable {keys : KeyStore}

theorem sealing_keeps {α : Type} (onError : CryptoError → Error) (x : Envelope.Sealing α) :
    Action.Keeps (fun v => v.keys = keys) (sealing onError x) fun _ => True :=
  fun _ hv => ⟨hv, fun _ _ => trivial⟩

theorem draw_keeps {α : Type} (x : Draw α) :
    Action.Keeps (fun v => v.keys = keys) (draw x) fun _ => True :=
  fun _ hv => ⟨hv, fun _ _ => trivial⟩

theorem loadKey_keeps (S : CipherSuite) (identity : String) :
    Action.Keeps (fun v => v.keys = keys) (loadKey S identity) fun _ => True := by
  intro v hv
  rw [loadKey_eq]
  exact ⟨hv, fun _ _ => trivial⟩

/-- A slot that is asked to be empty is. -/
theorem requireNoKey_keeps (identity : String) :
    Action.Keeps (fun v => v.keys = keys) (requireNoKey identity) fun _ =>
      keys.hasKey identity = false := by
  rintro v rfl
  rw [requireNoKey_run]
  refine ⟨rfl, fun _ h => ?_⟩
  cases hsome : v.keys.hasKey identity with
  | false => rfl
  | true =>
    rw [hsome] at h
    cases h

/-- Storing a key writes its slot, which was empty, and nothing else; where it fails it writes
nothing. -/
theorem storeKey_commits (S : CipherSuite) (identity : String) (key : KeyPair) :
    Action.Commits (fun v => v.keys = keys) (storeKey S identity key) fun _ v =>
      keys.hasKey identity = false ∧
        ∃ stored, v.keys = ⟨keys.slots.insert ⟨keySlot identity, stored⟩, keys.sealing⟩ := by
  refine .after (requireNoKey_keeps identity) fun _ hno => ?_
  rintro v rfl
  obtain ⟨tape, ⟨stored, hrun, -⟩ | ⟨e, hrun, -⟩⟩ :=
    store_run S (keySlot identity) key.privateOctets v
  · exact .inr ⟨_, _, hrun, hno, stored, rfl⟩
  · exact .inl ⟨e, _, hrun, rfl⟩

/-- Deleting a key empties its slot. -/
theorem deleteKey_run (identity : String) (v : Vault) :
    deleteKey identity v = (.ok (v.keys.hasKey identity),
      { v with keys.slots := v.keys.slots.erase (keySlot identity) }) := rfl

end Kept

end Vault

end EndToEnd
