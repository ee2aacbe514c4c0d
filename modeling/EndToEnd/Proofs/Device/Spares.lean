/-
  What a device does for its own identity spares all others.

  Nothing is assumed of the state: the directory may list what no publication would have left, entries
  and slots may hold anything, and calls may fail. What belongs to an identity is what is kept under its
  name: its listings, its slot and its entries (`Site.Spares`). Every action that a device's operations
  are made of keeps these for every identity but its own, so all operations do.

  Proved:
  * `KeyBackup.Done.spares`: what an operation on backups changes belongs to its identity.
  * `Lookup.maintained_reaching`, `Lookup.update_keeps`: lookups leave the directory's list.
  * `Device.publish_spares`, `Device.unregister_spares` and their likes: so it is for keys and cards.
  * `Operation.spares`: whatever a device is asked to do.
-/
import EndToEnd.Proofs.Backup.Outcome
import EndToEnd.Proofs.Directory.Owned
import EndToEnd.Proofs.Fleet.Run

open EndToEnd.Action

namespace EndToEnd

variable {S : CipherSuite} {identity other : String} {α : Type}

/-! ## Key slots -/

/-- The slot of an identity is as it was, and so is how slots are sealed. -/
structure KeyStore.Spares (identity : String) (keys keys' : KeyStore) : Prop where
  slot : keys'.slots.find? (Vault.keySlot identity) = keys.slots.find? (Vault.keySlot identity)
  sealing : keys'.sealing = keys.sealing

namespace KeyStore

variable {keys keys' keys'' : KeyStore}

theorem Spares.refl (identity : String) (keys : KeyStore) : keys.Spares identity keys := ⟨rfl, rfl⟩

theorem Spares.trans (h : keys.Spares identity keys') (h' : keys'.Spares identity keys'') :
    keys.Spares identity keys'' := ⟨h'.slot.trans h.slot, h'.sealing.trans h.sealing⟩

theorem spares_insert (hne : other ≠ identity) (keys : KeyStore) (stored : Octets) :
    keys.Spares other ⟨keys.slots.insert ⟨Vault.keySlot identity, stored⟩, keys.sealing⟩ :=
  ⟨(Table.find?_insert _ _ _).trans (if_neg fun h => hne (Vault.keySlot_inj h).symm), rfl⟩

theorem spares_erase (hne : other ≠ identity) (keys : KeyStore) :
    keys.Spares other ⟨keys.slots.erase (Vault.keySlot identity), keys.sealing⟩ :=
  ⟨(Table.find?_erase _ _ _).trans (if_neg fun h => hne (Vault.keySlot_inj h)), rfl⟩

end KeyStore

namespace Vault

variable {keys : KeyStore}

theorem storeKey_spares (hne : other ≠ identity) (key : KeyPair) :
    Keeps (fun v => keys.Spares other v.keys) (storeKey S identity key) fun _ => True := by
  intro v hv
  refine ⟨?_, fun _ _ => trivial⟩
  rcases storeKey_commits S identity key v rfl with
    ⟨e, v', hrun, hsame⟩ | ⟨_, v', hrun, -, stored, hkeys⟩
  · rw [hrun, hsame]
    exact hv
  · rw [hrun, hkeys]
    exact hv.trans (KeyStore.spares_insert hne _ stored)

theorem deleteKey_spares (hne : other ≠ identity) :
    Keeps (fun v => keys.Spares other v.keys) (deleteKey identity) fun _ => True :=
  fun _ hv => ⟨hv.trans (KeyStore.spares_erase hne _), fun _ _ => trivial⟩

end Vault

/-! ## Messages -/

namespace Message

variable {keys : KeyStore} (format : Format) (identity : String)

theorem encrypt_keeps (data : Octets) (others : Option (List PublicKey)) :
    Keeps (fun v => v.keys = keys) (encrypt S format identity data others) fun _ => True :=
  .bind (.lifted _) fun _ _ => .bind (Vault.loadKey_keeps S identity) fun _ _ =>
    .bind (.lifted _) fun _ _ => Vault.sealing_keeps _ _

theorem encryptText_keeps (text : String) (others : Option (List PublicKey)) :
    Keeps (fun v => v.keys = keys) (encryptText S format identity text others) fun _ => True :=
  .bind (.lifted _) fun _ _ => .map (encrypt_keeps format identity _ others)

theorem decrypt_keeps (sealed : Octets) (sender : Option PublicKey) :
    Keeps (fun v => v.keys = keys) (decrypt S format identity sealed sender) fun _ => True :=
  .bind (.lifted _) fun _ _ => .bind (Vault.loadKey_keeps S identity) fun _ _ => .lifted _

theorem readText_keeps (text : String) {decrypt : Octets → Action Vault Octets}
    (h : ∀ sealed, Keeps (fun v => v.keys = keys) (decrypt sealed) fun _ => True) :
    Keeps (fun v => v.keys = keys) (readText text decrypt) fun _ => True :=
  .bind (.lifted _) fun sealed _ => .bind (h sealed) fun _ _ => .lifted _

theorem decryptWithKeys_keeps (sealed : Octets) (verifiers : List PublicKey) :
    Keeps (fun v => v.keys = keys) (decryptWithKeys S identity sealed verifiers) fun _ => True := by
  unfold decryptWithKeys
  split
  · exact .throw _
  · exact .bind (.lifted _) fun _ _ => .bind (Vault.loadKey_keeps S identity) fun _ _ => .lifted _

end Message

namespace StreamDesk

variable {keys : KeyStore} (identity : String)

theorem loadKey_keeps :
    Keeps (fun d => d.vault.keys = keys) (inVault (Vault.loadKey S identity)) fun _ => True :=
  (Vault.loadKey_keeps S identity).on (fun _ hd => hd) fun _ _ _ hv => hv

theorem encrypt_keeps (source : Stream.Source) (others : Option (List PublicKey)) :
    Keeps (fun d => d.vault.keys = keys) (encrypt S identity source others) fun _ => True :=
  .bind (loadKey_keeps identity) fun _ _ => .bind (.lifted _) fun _ _ =>
    .bind (Q := fun _ => True) (fun _ hd => ⟨hd, fun _ _ => trivial⟩) fun _ _ => .lifted _

theorem decrypt_keeps (source : Stream.Source) :
    Keeps (fun d => d.vault.keys = keys) (decrypt S identity source) fun _ => True :=
  .bind (loadKey_keeps identity) fun _ _ =>
    .bind (Q := fun _ => True) (fun _ hd => ⟨hd, fun _ _ => trivial⟩) fun _ _ => .lifted _

end StreamDesk

/-! ## Backups -/

/-- The entries of an identity are as they were. -/
def BackupEntries.Spares (identity : String) (t t' : BackupEntries) : Prop :=
  ∀ keyName, t'.find? (identity, keyName) = t.find? (identity, keyName)

namespace BackupEntries

variable {t : BackupEntries} {keyName : String}

theorem spares_insert (hne : other ≠ identity) {e : BackupEntry} (he : e.identity = identity) :
    t.Spares other (Table.insert e t) := by
  intro n
  refine (Table.find?_insert _ _ _).trans (if_neg fun h => hne ?_)
  exact (congrArg Prod.fst h).symm.trans he

theorem spares_erase (hne : other ≠ identity) : t.Spares other (Table.erase (identity, keyName) t) :=
  fun _ => (Table.find?_erase _ _ _).trans (if_neg fun h => hne (congrArg Prod.fst h))

theorem spares_keep (hne : other ≠ identity) :
    t.Spares other (Table.keep (fun e => e.identity ≠ identity) t) := by
  intro n
  have hkept : ∀ e : BackupEntry, decide (e.identity ≠ identity) = decide (e.key.1 ≠ identity) :=
    fun _ => rfl
  rw [Table.find?_keep (q := fun place => decide (place.1 ≠ identity)) hkept]
  exact if_pos (decide_eq_true hne)

end BackupEntries

/-- What an identity has at a desk is as it was, and nobody interferes. -/
structure BackupDesk.Spares (identity : String) (keys : KeyStore) (t : BackupEntries)
    (d : BackupDesk) : Prop where
  keys : keys.Spares identity d.vault.keys
  entries : t.Spares identity d.link.store.entries
  alone : d.link.meanwhile = none

namespace KeyBackup

variable {b : KeyBackup} {keys keys' : KeyStore} {t t' : BackupEntries} {now : Timestamp}

/-- What an operation that is done has changed belongs to the identity of the key. -/
theorem Done.spares {operation : BackupOperation} {answer : BackupAnswer}
    (h : b.Done S keys t now operation answer keys' t') (hne : other ≠ b.identity) :
    keys.Spares other keys' ∧ t.Spares other t' := by
  cases h with
  | backUp ciphertext => exact ⟨.refl _ _, BackupEntries.spares_insert hne rfl⟩
  | restore stored => exact ⟨KeyStore.spares_insert hne _ stored, fun _ => rfl⟩
  | changePassword e ciphertext found =>
    have hkey : e.key = (b.identity, b.keyName) := Table.key_of_find? found
    exact ⟨.refl _ _, BackupEntries.spares_insert hne (congrArg Prod.fst hkey)⟩
  | reset => exact ⟨.refl _ _, BackupEntries.spares_erase hne⟩
  | resetAll => exact ⟨.refl _ _, BackupEntries.spares_keep hne⟩
  | storeKey stored => exact ⟨KeyStore.spares_insert hne _ stored, fun _ => rfl⟩
  | deleteKey => exact ⟨KeyStore.spares_erase hne _, fun _ => rfl⟩

/-- An operation on backups spares all identities but its own, whether or not it is done. -/
theorem spares_of_commits {x : Action BackupDesk α} {operation : BackupOperation}
    {answer : α → BackupAnswer} (hne : other ≠ b.identity)
    (hx : ∀ keys t now, Commits (BackupDesk.Has keys t now) x fun a =>
      Finished S b keys t now operation (answer a)) :
    Keeps (BackupDesk.Spares other keys t) x fun _ => True := by
  intro d hd
  refine ⟨?_, fun _ _ => trivial⟩
  rcases hx d.vault.keys d.link.store.entries d.now d ⟨rfl, ⟨rfl, hd.alone⟩, rfl⟩ with
    ⟨e, d', hrun, hsame⟩ | ⟨a, d', hrun, keys', t', hhas, hdone⟩
  · rw [hrun]
    refine ⟨?_, ?_, hsame.link.alone⟩
    · rw [hsame.keys]
      exact hd.keys
    · rw [hsame.link.entries]
      exact hd.entries
  · rw [hrun]
    obtain ⟨hkeys, hentries⟩ := hdone.spares hne
    refine ⟨?_, fun keyName => ?_, hhas.link.alone⟩
    · rw [hhas.keys]
      exact hd.keys.trans hkeys
    · rw [hhas.link.entries]
      exact (hentries keyName).trans (hd.entries keyName)

/-- Asking where the key is changes nothing. -/
theorem state_keeps (b : KeyBackup) :
    Keeps (BackupDesk.Has keys t now) b.state fun _ => True := by
  have hhas : Keeps (BackupDesk.Has keys t now) (inVault (Vault.hasKey b.identity)) fun _ => True :=
    inVault_keeps fun _ hv => ⟨hv, fun _ _ => trivial⟩
  refine hhas.bind fun has _ => ?_
  cases has with
  | false => exact .pure trivial
  | true =>
    refine .bind (find_keeps keys t now b b.keyName) fun found _ => ?_
    cases found <;> exact .pure trivial

theorem state_spares (b : KeyBackup) :
    Keeps (BackupDesk.Spares other keys t) b.state fun _ => True := by
  intro d hd
  obtain ⟨hsame, -⟩ := state_keeps b d ⟨rfl, ⟨rfl, hd.alone⟩, rfl⟩
  refine ⟨⟨?_, ?_, hsame.link.alone⟩, fun _ _ => trivial⟩
  · rw [hsame.keys]
    exact hd.keys
  · rw [hsame.link.entries]
    exact hd.entries

end KeyBackup

/-! ## Lookups -/

/-- The directory at the other end of the link has this list, and is or is not in reach. -/
def LookupDesk.Reaches (t : Listings) (available : Bool) (d : LookupDesk) : Prop :=
  d.link.listings = t ∧ d.link.directory.available = available

namespace Lookup

variable {t : Listings} {available : Bool}

theorem inCache_keeps (x : Action CardCache α) :
    Keeps (LookupDesk.Reaches t available) (inCache x) fun _ => True :=
  fun _ hd => ⟨hd, fun _ _ => trivial⟩

theorem call_keeps {x : Action DirectoryLink α} {Q : α → Prop}
    (hx : Keeps (fun l => l.listings = t ∧ l.directory.available = available) x Q) :
    Keeps (LookupDesk.Reaches t available) (call x) Q :=
  hx.on (fun _ hd => hd) fun _ _ _ hl => hl

/-- Lookups leave the directory's list and its reach, whatever the cache holds. -/
theorem maintained_reaching (S : CipherSuite) (t : Listings) (available : Bool) :
    Maintained S (LookupDesk.Reaches t available) fun _ _ => True where
  search := fun identity =>
    (call_keeps (DirectoryLink.search_keeps t available identity)).mono fun _ _ _ _ => trivial
  storeChain := fun _ => inCache_keeps _
  cached := fun _ => inCache_keeps _

theorem refresh_keeps (listening : Bool) (identity : String) (stale : List Card) :
    Keeps (LookupDesk.Reaches t available) (refresh listening identity stale) fun _ => True := by
  have hstored : ∀ card : CardChain, Keeps (LookupDesk.Reaches t available) (do
      inCache (CardCache.storeChain card)
      if listening then modify fun d => { d with reported := d.reported ++ [identity] }
      pure true) fun _ => True := by
    intro card
    refine .bind (inCache_keeps _) fun _ _ => ?_
    cases listening with
    | false => exact .pure trivial
    | true => exact fun _ hd => ⟨hd, fun _ _ => trivial⟩
  refine .bind (call_keeps (DirectoryLink.search_keeps t available identity)) fun cards _ => ?_
  refine .bind .get fun desk _ => ?_
  dsimp only
  split
  · refine .bind (Q := fun _ => True) (.pure trivial) fun current _ => ?_
    refine .bind (inCache_keeps _) fun _ _ => ?_
    cases current with
    | none => exact .pure trivial
    | some card => exact hstored card
  · refine .bind (Q := fun _ => True) (.map (.lifted _)) fun current _ => ?_
    refine .bind (inCache_keeps _) fun _ _ => ?_
    cases current with
    | none => exact .pure trivial
    | some card => exact hstored card

theorem refreshAll_keeps (listening : Bool) (stale : List Card) (identities : List String) :
    Keeps (LookupDesk.Reaches t available) (refreshAll listening stale identities) fun _ => True := by
  induction identities with
  | nil => exact .pure trivial
  | cons identity identities ih =>
    exact .bind (refresh_keeps listening identity _) fun _ _ => .bind ih fun _ _ => .pure trivial

theorem cachedHeads_keeps (S : CipherSuite) (ids : List String) :
    Keeps (LookupDesk.Reaches t available) (cachedHeads S ids) fun _ => True := by
  induction ids with
  | nil => exact .pure trivial
  | cons id ids ih =>
    exact .bind (inCache_keeps _) fun _ _ => .bind ih fun _ _ => .pure trivial

/-- So does an update. -/
theorem update_keeps (S : CipherSuite) (listening : Bool) :
    Keeps (LookupDesk.Reaches t available) (update S listening) fun _ => True := by
  refine .bind (inCache_keeps _) fun ids _ => ?_
  cases ids with
  | nil => exact .pure trivial
  | cons id ids =>
    exact .bind (call_keeps (DirectoryLink.outdated_keeps t available _)) fun outdated _ =>
      .bind (cachedHeads_keeps S outdated) fun stale _ => refreshAll_keeps listening stale _

end Lookup

/-! ## Sites -/

/-- What belongs to an identity is as it was, and nobody else writes to the backup store. -/
structure Site.Spares (identity : String) (s s' : Site) : Prop where
  cards : s'.listings.owned identity = s.listings.owned identity
  keys : s.vault.keys.Spares identity s'.vault.keys
  entries : BackupEntries.Spares identity s.backups.store.entries s'.backups.store.entries
  alone : s'.backups.meanwhile = none

namespace Site

variable {s : Site} {Q : α → Prop}

theorem spares_inVault {x : Action Vault α}
    (hx : Keeps (fun v => s.vault.keys.Spares other v.keys) x Q) :
    Keeps (s.Spares other) (inVault x) Q :=
  hx.on (fun _ hs => hs.keys) fun _ _ hs hv => ⟨hs.cards, hv, hs.entries, hs.alone⟩

/-- Reading keys spares everything. -/
theorem spares_reading {x : Action Vault α} (hx : ∀ keys, Keeps (fun v => v.keys = keys) x Q) :
    Keeps (s.Spares other) (inVault x) Q := spares_inVault (.through hx)

theorem spares_inCache (x : Action CardCache α) : Keeps (s.Spares other) (inCache x) fun _ => True :=
  fun _ hs => ⟨⟨hs.cards, hs.keys, hs.entries, hs.alone⟩, fun _ _ => trivial⟩

theorem spares_call {x : Action DirectoryLink α}
    (hx : Keeps (fun l => l.listings.owned other = s.listings.owned other) x Q) :
    Keeps (s.Spares other) (call x) Q :=
  hx.on (fun _ hs => hs.cards) fun _ _ hs hl => ⟨hl, hs.keys, hs.entries, hs.alone⟩

theorem spares_inLookup {x : Action LookupDesk α}
    (hx : ∀ t available, Keeps (LookupDesk.Reaches t available) x Q) :
    Keeps (s.Spares other) (inLookup x) Q := by
  intro s' hs
  obtain ⟨⟨hsame, -⟩, hq⟩ := hx s'.listings s'.directory.directory.available
    ⟨s'.cache, s'.directory, s'.reported⟩ ⟨rfl, rfl⟩
  exact ⟨⟨(congrArg (Listings.owned other) hsame).trans hs.cards, hs.keys, hs.entries, hs.alone⟩, hq⟩

theorem spares_inBackup {x : Action BackupDesk α}
    (hx : Keeps (BackupDesk.Spares other s.vault.keys s.backups.store.entries) x Q) :
    Keeps (s.Spares other) (inBackup x) Q :=
  hx.on (fun _ hs => ⟨hs.keys, hs.entries, hs.alone⟩) fun _ _ hs hd =>
    ⟨hs.cards, hd.keys, hd.entries, hd.alone⟩

theorem spares_intoSink (sink : Stream.Sink) {x : Action StreamDesk Nat}
    (hx : ∀ keys, Keeps (fun d => d.vault.keys = keys) x fun _ => True) :
    Keeps (s.Spares other) (Device.intoSink sink x) fun _ => True := by
  intro s' hs
  obtain ⟨hsame, -⟩ := hx s'.vault.keys ⟨s'.vault, sink⟩ rfl
  refine ⟨⟨hs.cards, ?_, hs.entries, hs.alone⟩, fun _ _ => trivial⟩
  change s.vault.keys.Spares other (x ⟨s'.vault, sink⟩).2.vault.keys
  rw [hsame]
  exact hs.keys

end Site

namespace Device

open Site

variable {s : Site} {d : Device} (hne : other ≠ d.identity)
include hne

theorem publish_spares (key : KeyPair) (previous : Option CardChain) :
    Keeps (s.Spares other) (d.publish S key previous) fun _ => True := by
  rw [publish_eq]
  refine .bind .get fun _ _ => .bind (.lift fun _ hraw => hraw) fun raw hraw => ?_
  refine .bind (spares_call (DirectoryLink.publish_spares hraw hne)) fun card _ => ?_
  exact .bind (spares_inVault (Vault.storeKey_spares hne key)) fun _ _ =>
    .bind (spares_inCache _) fun _ _ => .pure trivial

theorem registerWith_spares (key : KeyPair) :
    Keeps (s.Spares other) (d.registerWith S key) fun _ => True := by
  refine .bind (spares_reading fun _ => (Vault.requireNoKey_keeps d.identity).true) fun _ _ => ?_
  refine .bind (spares_call (DirectoryLink.search_spares hne)) fun cards _ => ?_
  cases cards with
  | nil => exact publish_spares hne key none
  | cons c cards => exact .throw _

theorem register_spares : Keeps (s.Spares other) (d.register S) fun _ => True :=
  .bind (spares_reading fun _ => Vault.draw_keeps _) fun key _ => registerWith_spares hne key

theorem rotate_spares : Keeps (s.Spares other) (d.rotate S) fun _ => True := by
  refine .bind (spares_reading fun _ => (Vault.requireNoKey_keeps d.identity).true) fun _ _ => ?_
  refine .bind (spares_call (DirectoryLink.search_spares hne)) fun cards _ => ?_
  cases cards with
  | nil => exact .throw _
  | cons c cards =>
    exact .bind (.lifted _) fun current _ => .bind (spares_reading fun _ => Vault.draw_keeps _)
      fun key _ => publish_spares hne key (some current)

theorem unregister_spares : Keeps (s.Spares other) d.unregister fun _ => True := by
  refine .bind (spares_call (DirectoryLink.search_spares hne)) fun cards hcards => ?_
  cases cards with
  | nil => exact .throw _
  | cons c cards =>
    refine .bind (.each fun chain hchain =>
      spares_call (DirectoryLink.revoke_spares (hcards chain hchain))) fun _ _ => ?_
    exact .bind (spares_inVault (Vault.deleteKey_spares hne)) fun _ _ => spares_inCache _

theorem cleanUp_spares : Keeps (s.Spares other) d.cleanUp fun _ => True := by
  refine .bind (spares_inVault (Vault.deleteKey_spares hne)) fun had _ => ?_
  cases had with
  | true => exact spares_inCache _
  | false => exact .throw _

/-- An operation on the device's backups spares all other identities. -/
theorem spares_committed {x : Action BackupDesk α} {operation : BackupOperation}
    {answer : α → BackupAnswer} (hx : ∀ keys t now, Commits (BackupDesk.Has keys t now) x fun a =>
      KeyBackup.Finished S d.keyBackup keys t now operation (answer a)) :
    Keeps (s.Spares other) (inBackup x) fun _ => True :=
  spares_inBackup (KeyBackup.spares_of_commits (b := d.keyBackup) hne hx)

end Device

/-! ## Operations -/

section Operations

variable {s : Site} {d : Device} (hne : other ≠ d.identity)
include hne

theorem KeyOperation.spares (op : KeyOperation) :
    Keeps (s.Spares other) (op.action S d) fun _ => True := by
  cases op with
  | issue i =>
    cases i with
    | register => exact (Device.register_spares hne).silently
    | registerWith key => exact (Device.registerWith_spares hne key).silently
    | rotate => exact (Device.rotate_spares hne).silently
  | unregister => exact Device.unregister_spares hne
  | cleanUp => exact Device.cleanUp_spares hne

/-- Whatever a device is asked to do spares all identities but its own. -/
theorem Operation.spares (op : Operation) : Keeps (s.Spares other) (op.action S d) fun _ => True := by
  have hlookup := Lookup.maintained_reaching S
  cases op with
  | key op => exact op.spares hne
  | hasKey => exact (Site.spares_reading (x := Vault.hasKey d.identity) fun _ _ hv =>
      ⟨hv, fun _ _ => trivial⟩).silently
  | encrypt format data users =>
    exact (Site.spares_reading fun _ => Message.encrypt_keeps format _ data _).silently
  | encryptFor data user =>
    exact (Site.spares_reading fun _ => Message.encrypt_keeps .authenticated _ data _).silently
  | encryptText format text users =>
    exact (Site.spares_reading fun _ => Message.encryptText_keeps format _ text _).silently
  | decrypt format sealed sender =>
    exact (Site.spares_reading fun _ => Message.decrypt_keeps format _ sealed _).silently
  | decryptAt format sealed sender asOf =>
    exact (Site.spares_reading fun _ => Message.decrypt_keeps format _ sealed _).silently
  | decryptText format text sender =>
    exact (Site.spares_reading fun _ => Message.readText_keeps text fun sealed =>
      Message.decrypt_keeps format _ sealed _).silently
  | decryptTextAt format text sender asOf =>
    exact (Site.spares_reading fun _ => Message.readText_keeps text fun sealed =>
      Message.decrypt_keeps format _ sealed _).silently
  | decryptWithKeys sealed verifiers =>
    exact (Site.spares_reading fun _ => Message.decryptWithKeys_keeps _ sealed verifiers).silently
  | encryptStream source sink users =>
    exact (Site.spares_intoSink sink fun _ => StreamDesk.encrypt_keeps _ source _).silently
  | decryptStream source sink =>
    exact (Site.spares_intoSink sink fun _ => StreamDesk.decrypt_keeps _ source).silently
  | findUsers identities reload =>
    exact (Site.spares_inLookup fun t b => (hlookup t b).findUsers identities reload).silently
  | findUser identity reload =>
    exact (Site.spares_inLookup fun t b => (hlookup t b).findUser identity reload).silently
  | findCachedUsers identities =>
    exact (Site.spares_inLookup fun t b => (hlookup t b).findCachedUsers identities).silently
  | findCachedUser identity =>
    exact (Site.spares_inLookup fun t b => (hlookup t b).findCachedUser identity).silently
  | publicKeys identities =>
    exact (Site.spares_inLookup fun t b => (hlookup t b).publicKeys identities).silently
  | searchCached identities =>
    exact (Site.spares_inLookup fun t b => (hlookup t b).cached identities).silently
  | update => exact (Site.spares_inLookup fun _ _ => Lookup.update_keeps S d.listening).silently
  | backupState => exact (Site.spares_inBackup (KeyBackup.state_spares d.keyBackup)).silently
  | backUp password =>
    exact Device.spares_committed hne fun _ _ _ => KeyBackup.backUpNamed_commits S _ password _
  | backUpNamed password keyName =>
    exact Device.spares_committed hne fun _ _ _ => KeyBackup.backUpNamed_commits S _ password keyName
  | restore password =>
    exact (Device.spares_committed hne fun _ _ _ =>
      KeyBackup.restoreNamed_commits S _ password _).silently
  | restoreNamed password keyName =>
    exact (Device.spares_committed hne fun _ _ _ =>
      KeyBackup.restoreNamed_commits S _ password keyName).silently
  | changePassword old new =>
    exact Device.spares_committed hne fun _ _ _ => KeyBackup.changePassword_commits S _ old new
  | resetBackup password? =>
    exact Device.spares_committed hne fun _ _ _ => KeyBackup.reset_commits S _ password?

end Operations

end EndToEnd
