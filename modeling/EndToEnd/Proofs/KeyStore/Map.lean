/-
  A store of slots is a map from names to values, and the keys in it a map from identities to key pairs.

  Proved, for a store that seals what it holds and for one that does not:
    `answer_simulates`     a call to a slot answers as the map does, and leaves what the map leaves;
    `answerKey_simulates`  the same of the calls by which identities keep their keys, over the map in
                           which each identity has a place of its own;
    `holds_answerKey`      a key that is held is held until its identity deletes it;
    `answers_as_maps`      the answers of whole runs, and what follows for the key of an identity.
-/
import EndToEnd.Proofs.Action
import EndToEnd.Proofs.Backup.Book
import EndToEnd.Proofs.CipherSuite.Transparent
import EndToEnd.Proofs.KeyStore

namespace EndToEnd

/-- A map that has a value for some names. -/
abbrev PlainMap (α : Type) := String → Option α

/-- A map without values. -/
def PlainMap.empty {α : Type} : PlainMap α := fun _ => none

/-- What is asked of a store of slots. -/
inductive SlotCall where
  | store (slot : String) (value : Octets)
  | load (slot : String)
  | delete (slot : String)
  | holds (slot : String)

/-- What a store of slots answers. -/
inductive SlotAnswer where
  | done
  | value (value? : Option Octets)
  | flag (b : Bool)
deriving DecidableEq

/-- What is asked of the keys of identities. -/
inductive KeyCall where
  | store (identity : String) (key : KeyPair)
  | load (identity : String)
  | delete (identity : String)
  | has (identity : String)

/-- The identity that asks. -/
def KeyCall.identity : KeyCall → String
  | .store identity _ => identity
  | .load identity => identity
  | .delete identity => identity
  | .has identity => identity

/-- What is answered about the keys of identities. -/
inductive KeyAnswer where
  | done
  | key (key : KeyPair)
  | flag (b : Bool)
deriving DecidableEq

namespace PlainMap

/-- What a map answers to a call to a slot. -/
def answer : SlotCall → Action (PlainMap Octets) SlotAnswer
  | .store slot value, m => (.ok .done, assign m slot (some value))
  | .load slot, m => (.ok (.value (m slot)), m)
  | .delete slot, m => (.ok (.flag (m slot).isSome), assign m slot none)
  | .holds slot, m => (.ok (.flag (m slot).isSome), m)

/-- What a map of keys answers: an identity that has a key is not given another one. -/
def answerKey : KeyCall → Action (PlainMap KeyPair) KeyAnswer
  | .store identity key, m =>
    match m identity with
    | some _ => (.error .privateKeyExists, m)
    | none => (.ok .done, assign m identity (some key))
  | .load identity, m =>
    match m identity with
    | some key => (.ok (.key key), m)
    | none => (.error .missingPrivateKey, m)
  | .delete identity, m => (.ok (.flag (m identity).isSome), assign m identity none)
  | .has identity, m => (.ok (.flag (m identity).isSome), m)

end PlainMap

/-- Private octets are a key pair's if there are 64 of them, and then they are what it gives back. -/
theorem KeyPair.ofPrivateOctets_cases (o : Octets) :
    if o.length = 64 then ∃ key, ofPrivateOctets o = .ok key ∧ key.privateOctets = o
    else ofPrivateOctets o =
      .error (.invalidKey s!"Private key must be 64 bytes, got {o.length}") := by
  split
  · rename_i hlength
    let key : KeyPair := ⟨⟨o.take 32, by simp [hlength]⟩, ⟨o.drop 32, by simp [hlength]⟩⟩
    have hkey : key.privateOctets = o := List.take_append_drop 32 o
    have hok := ofPrivateOctets_privateOctets key
    rw [hkey] at hok
    exact ⟨key, hok, hkey⟩
  · rename_i hlength
    cases hread : ofPrivateOctets o with
    | ok key =>
      refine absurd ?_ hlength
      rw [← privateOctets_of_ofPrivateOctets hread]
      simp [privateOctets]
    | error e =>
      unfold ofPrivateOctets at hread
      split at hread
      · cases hread
      · exact hread.symm

namespace Vault

variable {S : CipherSuite} {sealing : Option (Block 32)} {v v' : Vault} {identity : String}
  {key : KeyPair}

/-- What a store of slots answers to a call. -/
def answer (S : CipherSuite) : SlotCall → Action Vault SlotAnswer
  | .store slot value => do
    store S slot value
    pure .done
  | .load slot => .value <$> load S slot
  | .delete slot => .flag <$> delete slot
  | .holds slot => .flag <$> holds slot

/-- What a key store answers to a call. -/
def answerKey (S : CipherSuite) : KeyCall → Action Vault KeyAnswer
  | .store identity key => do
    storeKey S identity key
    pure .done
  | .load identity => .key <$> loadKey S identity
  | .delete identity => .flag <$> deleteKey identity
  | .has identity => .flag <$> hasKey identity

/-! ## Slots -/

/-- A store that seals can seal the value of the call. -/
def Admits (S : CipherSuite) (sealing : Option (Block 32)) : SlotCall → Prop
  | .store slot value => sealing.isSome → S.Locks (Utf8.encode slot) value.length
  | .load _ => True
  | .delete _ => True
  | .holds _ => True

/-- Each slot has what the map has in its place: nothing, or what opens to the value. -/
structure Maps (S : CipherSuite) (sealing : Option (Block 32)) (v : Vault) (m : PlainMap Octets) :
    Prop where
  seals : v.keys.sealing = sealing
  slots : ∀ slot, (v.keys.slots.find? slot).map (fun s => valueOf S slot s.stored sealing) =
    (m slot).map .ok

theorem maps_empty (S : CipherSuite) (sealing : Option (Block 32)) (tape : Tape) :
    Maps S sealing ⟨.empty sealing, tape⟩ .empty := ⟨rfl, fun _ => rfl⟩

theorem Maps.has {m : PlainMap Octets} (h : Maps S sealing v m) (slot : String) :
    v.keys.slots.has slot = (m slot).isSome := by
  have hslot := congrArg Option.isSome (h.slots slot)
  rwa [Option.isSome_map, Option.isSome_map] at hslot

theorem Maps.load {m : PlainMap Octets} (h : Maps S sealing v m) (slot : String) :
    load S slot v = (.ok (m slot), v) := by
  have hslot := h.slots slot
  rw [Vault.load, h.seals]
  cases hm : m slot with
  | none =>
    rw [hm] at hslot
    rw [Option.map_eq_none_iff.1 hslot]
  | some value =>
    rw [hm] at hslot
    obtain ⟨s, hs, hvalue⟩ := Option.map_eq_some_iff.1 hslot
    rw [hs]
    dsimp only
    rw [hvalue]
    rfl

theorem store_simulates (ho : S.Opens) {slot : String} {value : Octets}
    (hl : sealing.isSome → S.Locks (Utf8.encode slot) value.length) :
    Action.Simulates (Maps S sealing) (answer S (.store slot value))
      (PlainMap.answer (.store slot value)) := by
  intro v m h
  obtain ⟨tape, ⟨stored, hrun, hvalue⟩ | ⟨e, -, hsealing, hrefused⟩⟩ := store_run S slot value v
  · rw [answer, Action.bind_ok hrun]
    refine ⟨rfl, h.seals, fun other => ?_⟩
    show ((v.keys.slots.insert ⟨slot, stored⟩).find? other).map _ =
      (assign m slot (some value) other).map _
    rw [Table.find?_insert]
    by_cases hother : slot = other
    · subst hother
      rw [if_pos rfl, assign_self, Option.map_some, ← h.seals, hvalue ho]
      rfl
    · rw [if_neg hother, assign_of_ne (Ne.symm hother)]
      exact h.slots other
  · rw [h.seals] at hsealing
    exact absurd (hl hsealing) hrefused

theorem load_simulates (slot : String) :
    Action.Simulates (Maps S sealing) (answer S (.load slot)) (PlainMap.answer (.load slot)) := by
  intro v m h
  rw [answer, Action.map_run, h.load]
  exact ⟨rfl, h⟩

theorem delete_simulates (slot : String) :
    Action.Simulates (Maps S sealing) (answer S (.delete slot)) (PlainMap.answer (.delete slot)) := by
  intro v m h
  refine ⟨congrArg (fun b => Except.ok (SlotAnswer.flag b)) (h.has slot), h.seals, fun other => ?_⟩
  show ((v.keys.slots.erase slot).find? other).map _ = (assign m slot none other).map _
  rw [Table.find?_erase]
  by_cases hother : other = slot
  · subst hother
    rw [if_pos rfl, assign_self]
    rfl
  · rw [if_neg hother, assign_of_ne hother]
    exact h.slots other

/-- A call to a slot answers as the map does, and leaves what the map leaves. -/
theorem answer_simulates (ho : S.Opens) {call : SlotCall} (hl : Admits S sealing call) :
    Action.Simulates (Maps S sealing) (answer S call) (PlainMap.answer call) := by
  cases call with
  | store slot value => exact store_simulates ho hl
  | load slot => exact load_simulates slot
  | delete slot => exact delete_simulates slot
  | holds slot =>
    intro v m h
    exact ⟨congrArg (fun b => Except.ok (SlotAnswer.flag b)) (h.has slot), h⟩

/-! ## Keys -/

/-- Every identity that the call may store a key for has a slot that a store that seals can seal. -/
def AdmitsKey (S : CipherSuite) (sealing : Option (Block 32)) (call : KeyCall) : Prop :=
  sealing.isSome → S.Locks (Utf8.encode (keySlot call.identity)) 64

/-- The store has for each identity the key that the map has for it, or none. -/
structure MapsKeys (S : CipherSuite) (sealing : Option (Block 32)) (v : Vault)
    (m : PlainMap KeyPair) : Prop where
  seals : v.keys.sealing = sealing
  keys : ∀ identity, v.keys.Shows S identity (m identity)

theorem mapsKeys_empty (S : CipherSuite) (sealing : Option (Block 32)) (tape : Tape) :
    MapsKeys S sealing ⟨.empty sealing, tape⟩ .empty := ⟨rfl, fun _ => rfl⟩

/-- The store has come to have something for one identity only, and so has the map. -/
theorem MapsKeys.sets {m : PlainMap KeyPair} (h : MapsKeys S sealing v m) {key? : Option KeyPair}
    (hs : v.keys.Sets S identity key? v'.keys) (hseals : v'.keys.sealing = v.keys.sealing) :
    MapsKeys S sealing v' (assign m identity key?) := by
  refine ⟨hseals.trans h.seals, fun other => ?_⟩
  by_cases hother : other = identity
  · subst hother
    rw [assign_self]
    exact hs.shows
  · rw [assign_of_ne hother]
    exact hs.others other hother _ (h.keys other)

theorem storeKey_simulates_map (ho : S.Opens)
    (hl : sealing.isSome → S.Locks (Utf8.encode (keySlot identity)) 64) (key : KeyPair) :
    Action.Simulates (MapsKeys S sealing) (answerKey S (.store identity key))
      (PlainMap.answerKey (.store identity key)) := by
  intro v m h
  have hhas := (h.keys identity).hasKey
  rw [answerKey, PlainMap.answerKey]
  cases hm : m identity with
  | some held =>
    rw [hm] at hhas
    rw [Action.bind_error (storeKey_refused hhas key)]
    exact ⟨rfl, h⟩
  | none =>
    rw [hm] at hhas
    have hseals := sealing_storeKey S identity key v
    rcases storeKey_run S hhas key with ⟨v', hrun, hstores⟩ | ⟨e, tape, -, hsealing, hrefused⟩
    · rw [hrun] at hseals
      rw [Action.bind_ok hrun]
      exact ⟨rfl, h.sets (hstores.sets ho hseals) hseals⟩
    · rw [h.seals] at hsealing
      exact absurd (hl hsealing) hrefused

theorem loadKey_simulates (identity : String) :
    Action.Simulates (MapsKeys S sealing) (answerKey S (.load identity))
      (PlainMap.answerKey (.load identity)) := by
  intro v m h
  rw [answerKey, Action.map_run, loadKey_eq, (h.keys identity).loaded, PlainMap.answerKey]
  cases m identity with
  | none => exact ⟨rfl, h⟩
  | some key => exact ⟨rfl, h⟩

theorem deleteKey_simulates_map (identity : String) :
    Action.Simulates (MapsKeys S sealing) (answerKey S (.delete identity))
      (PlainMap.answerKey (.delete identity)) := by
  intro v m h
  obtain ⟨v', hrun, hsets⟩ := deleteKey_sets S identity v
  rw [answerKey, Action.map_run, hrun, (h.keys identity).hasKey]
  refine ⟨rfl, h.sets hsets ?_⟩
  rw [deleteKey_run] at hrun
  exact congrArg (fun r => r.2.keys.sealing) hrun.symm

/-- A call about keys answers as the map does, and leaves what the map leaves. -/
theorem answerKey_simulates (ho : S.Opens) {call : KeyCall} (hl : AdmitsKey S sealing call) :
    Action.Simulates (MapsKeys S sealing) (answerKey S call) (PlainMap.answerKey call) := by
  cases call with
  | store identity key => exact storeKey_simulates_map ho hl key
  | load identity => exact loadKey_simulates identity
  | delete identity => exact deleteKey_simulates_map identity
  | has identity =>
    intro v m h
    rw [answerKey, Action.map_run, hasKey_run, (h.keys identity).hasKey]
    exact ⟨rfl, h⟩

/-! ## One identity among others -/

/-- Calls of others leave the slot of an identity as it is. -/
theorem slot_answerKey {slot? : Option KeySlot} {call : KeyCall} (hother : call.identity ≠ identity) :
    Action.Keeps
      (fun v => v.keys.slots.find? (keySlot identity) = slot? ∧ v.keys.sealing = sealing)
      (answerKey S call) fun _ => True := by
  have hne : ∀ other, other ≠ identity → keySlot other ≠ keySlot identity :=
    fun other h heq => h (keySlot_inj heq)
  rintro v ⟨hslot, hseals⟩
  refine ⟨?_, fun _ _ => trivial⟩
  cases call with
  | store other key =>
    rw [answerKey]
    rcases storeKey_commits S other key v rfl with ⟨e, w, hrun, hsame⟩ | ⟨_, w, hrun, -, stored, hw⟩
    · rw [Action.bind_error hrun, hsame]
      exact ⟨hslot, hseals⟩
    · rw [Action.bind_ok hrun, Action.pure_run, hw]
      refine ⟨?_, hseals⟩
      dsimp only
      rw [Table.find?_insert, if_neg (hne other hother)]
      exact hslot
  | load other =>
    rw [answerKey, Action.map_run, loadKey_eq]
    exact ⟨hslot, hseals⟩
  | delete other =>
    rw [answerKey, Action.map_run, deleteKey_run]
    refine ⟨?_, hseals⟩
    dsimp only
    rw [Table.find?_erase, if_neg (Ne.symm (hne other hother))]
    exact hslot
  | has other =>
    rw [answerKey, Action.map_run, hasKey_run]
    exact ⟨hslot, hseals⟩

/-- A key that is held is held until its identity deletes it. -/
theorem holds_answerKey {call : KeyCall} (hkept : call ≠ .delete identity) :
    Action.Keeps (fun v => v.keys.Holds S identity key) (answerKey S call) fun _ => True := by
  intro v h
  refine ⟨?_, fun _ _ => trivial⟩
  by_cases hother : call.identity = identity
  · have hshows : v.keys.Shows S identity (some key) := h
    cases call with
    | store asking other =>
      obtain rfl : asking = identity := hother
      rw [answerKey, Action.bind_error (storeKey_refused hshows.hasKey other)]
      exact h
    | load asking =>
      rw [answerKey, Action.map_run, loadKey_eq]
      exact h
    | delete asking => exact absurd (congrArg KeyCall.delete hother) hkept
    | has asking => exact h
  · obtain ⟨⟨hslot, hseals⟩, -⟩ := slot_answerKey (S := S) hother v ⟨rfl, rfl⟩
    have hshows : v.keys.Shows S identity (some key) := h
    exact hshows.congr hslot hseals

/-! ## Whole runs -/

/-- A store of slots, sealed under any key with any nonces or not sealed at all, answers every run of
calls as a map from names to values does, where what was sealed opens and the values that are stored
can be sealed. The keys of identities in it answer as a map from identities to key pairs.

Hence a key that an identity has stored is the key that it loads, with the same private octets, until it
deletes it; storing another one is refused and changes nothing. What others do never changes what an
identity loads. Private octets are read exactly if there are 64 of them, and are given back as they
were. -/
theorem answers_as_maps (ho : S.Opens) (sealing : Option (Block 32)) (tape : Tape) :
    (∀ calls, (∀ call ∈ calls, Admits S sealing call) →
      (Action.all (answer S) calls ⟨.empty sealing, tape⟩).1 =
        (Action.all PlainMap.answer calls .empty).1) ∧
    (∀ calls, (∀ call ∈ calls, AdmitsKey S sealing call) →
      (Action.all (answerKey S) calls ⟨.empty sealing, tape⟩).1 =
        (Action.all PlainMap.answerKey calls .empty).1) ∧
    (∀ identity key v v', storeKey S identity key v = (.ok (), v') →
      ∀ calls, .delete identity ∉ calls → ∀ w, (Action.all (answerKey S) calls v').2 = w →
        loadKey S identity w = (.ok key, w) ∧
        ∀ other, storeKey S identity other w = (.error .privateKeyExists, w)) ∧
    (∀ identity v calls, (∀ call ∈ calls, call.identity ≠ identity) →
      ∀ w, (Action.all (answerKey S) calls v).2 = w →
        (loadKey S identity w).1 = (loadKey S identity v).1 ∧
        (hasKey identity w).1 = (hasKey identity v).1) ∧
    ∀ o, if o.length = 64 then ∃ key, KeyPair.ofPrivateOctets o = .ok key ∧ key.privateOctets = o
      else KeyPair.ofPrivateOctets o =
        .error (.invalidKey s!"Private key must be 64 bytes, got {o.length}") := by
  refine ⟨fun calls hadmits => ?slots, fun calls hadmits => ?keys,
    fun identity key v v' hstore calls hkept w hw => ?kept,
    fun identity v calls hothers w hw => ?apart, KeyPair.ofPrivateOctets_cases⟩
  case slots =>
    exact (Action.all_simulates (fun call hc => answer_simulates ho (hadmits call hc))
      (maps_empty S sealing tape)).1
  case keys =>
    exact (Action.all_simulates (fun call hc => answerKey_simulates ho (hadmits call hc))
      (mapsKeys_empty S sealing tape)).1
  case kept =>
    have hholds : w.keys.Holds S identity key := by
      rw [← hw]
      refine Action.all_keeps (fun call hc => holds_answerKey fun hdelete => hkept ?_)
        (holds_of_storeKey ho hstore)
      rw [← hdelete]
      exact hc
    have hshows : w.keys.Shows S identity (some key) := hholds
    exact ⟨loadKey_run hholds, fun other => storeKey_refused hshows.hasKey other⟩
  case apart =>
    obtain ⟨hslot, hseals⟩ := Action.all_keeps
      (fun call hc => slot_answerKey (S := S) (hothers call hc)) (s := v) ⟨rfl, rfl⟩
    rw [hw] at hslot hseals
    refine ⟨?_, ?_⟩
    · rw [loadKey_eq, loadKey_eq, KeyStore.loaded, KeyStore.loaded, hslot, hseals]
    · rw [hasKey_run, hasKey_run, KeyStore.hasKey, KeyStore.hasKey, Table.has, Table.has, hslot]

/-- A sealed store of the suite that hides nothing, and the keys of two identities in it. -/
theorem answers_of_sealed_store :
    let tape : Tape := ⟨fun i => i.toUInt8, 0⟩
    let start : Vault := ⟨.empty (some (.zero 32)), tape⟩
    let first : KeyPair := ⟨.zero 32, .zero 32⟩
    let second : KeyPair := ⟨.zero 32, .littleEndian 32 1⟩
    (Action.all (answer .transparent)
        [.store "a" [1], .store "b" [], .load "a", .delete "a", .load "a", .holds "b"] start).1 =
      [.ok .done, .ok .done, .ok (.value (some [1])), .ok (.flag true), .ok (.value none),
        .ok (.flag true)] ∧
    (Action.all (answerKey .transparent)
        [.store "alice" first, .store "bob" second, .store "alice" second, .load "alice",
          .delete "alice", .load "alice", .load "bob"] start).1 =
      [.ok .done, .ok .done, .error .privateKeyExists, .ok (.key first), .ok (.flag true),
        .error .missingPrivateKey, .ok (.key second)] := by
  intro tape start first second
  obtain ⟨hslots, hkeys, -⟩ :=
    answers_as_maps CipherSuite.transparent_opens (some (.zero 32)) tape
  refine ⟨(hslots _ fun call hcall => ?_).trans (by decide),
    (hkeys _ fun call hcall => ?_).trans (by decide)⟩
  · cases call with
    | store slot value => exact fun _ => CipherSuite.transparent_locks _ _
    | load slot => trivial
    | delete slot => trivial
    | holds slot => trivial
  · exact fun _ => CipherSuite.transparent_locks _ _

end Vault

end EndToEnd
