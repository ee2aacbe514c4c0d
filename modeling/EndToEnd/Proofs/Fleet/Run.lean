/-
  Runs of a fleet.

  Devices join, act one at a time and share one directory that nobody else changes, while services go
  out of reach and come back and clocks move as they like. `Fleet.Sound` is the invariant of such runs:
  the directory obeys its rules, and every device's cache agrees with it.

  Proved:
  * `Operation.keeps`, `Operation.rests`: what a device does other than about its own key keeps what its
    lookups keep, and leaves the directory's list.
  * `Operation.advances`: whatever a device does keeps its site sound and takes nothing off the
    directory's list.
  * `Fleet.sound_step`: every event keeps a fleet sound.
  * `Fleet.sound_after`: so does every run.
-/
import EndToEnd.Fleet
import EndToEnd.Proofs.Device.Lifecycle
import EndToEnd.Proofs.Lookup.Update

open EndToEnd.Action

namespace EndToEnd

/-- A device of an identity with the default settings. No password becomes a key on it, and nobody listens
for changed keys. -/
def Device.plain (identity : String) : Device :=
  ⟨.new identity, fun _ _ => .error .missingPrivateKey, false⟩

/-- The ways to get a card for a new key. -/
inductive Issuance where
  | register
  | registerWith (key : KeyPair)
  | rotate

/-- What a device can be asked to do about its own key. -/
inductive KeyOperation where
  | issue (i : Issuance)
  | unregister
  | cleanUp

/-- What a device can be asked to do. -/
inductive Operation where
  | key (op : KeyOperation)
  | hasKey
  | encrypt (format : Message.Format) (data : Octets) (users : Option FoundCards)
  | encryptFor (data : Octets) (user : CardChain)
  | encryptText (format : Message.Format) (text : String) (users : Option FoundCards)
  | decrypt (format : Message.Format) (sealed : Octets) (sender : Option CardChain)
  | decryptAt (format : Message.Format) (sealed : Octets) (sender : CardChain) (asOf : Timestamp)
  | decryptText (format : Message.Format) (text : String) (sender : Option CardChain)
  | decryptTextAt (format : Message.Format) (text : String) (sender : CardChain) (asOf : Timestamp)
  | decryptWithKeys (sealed : Octets) (verifiers : List PublicKey)
  | encryptStream (source : Stream.Source) (sink : Stream.Sink) (users : Option FoundCards)
  | decryptStream (source : Stream.Source) (sink : Stream.Sink)
  | findUsers (identities : List String) (reload : Bool)
  | findUser (identity : String) (reload : Bool)
  | findCachedUsers (identities : List String)
  | findCachedUser (identity : String)
  | publicKeys (identities : List String)
  | searchCached (identities : List String)
  | update
  | backupState
  | backUp (password : String)
  | backUpNamed (password keyName : String)
  | restore (password : String)
  | restoreNamed (password keyName : String)
  | changePassword (old new : String)
  | resetBackup (password : Option String)

/-- How a device gets a card. -/
def Issuance.action (S : CipherSuite) (d : Device) : Issuance → Action Site CardChain
  | register => d.register S
  | registerWith key => d.registerWith S key
  | rotate => d.rotate S

/-- How a device looks after its key. -/
def KeyOperation.action (S : CipherSuite) (d : Device) : KeyOperation → Action Site Unit
  | issue i => Action.silently (i.action S d)
  | unregister => d.unregister
  | cleanUp => d.cleanUp

/-- How a device does what it is asked. -/
def Operation.action (S : CipherSuite) (d : Device) : Operation → Action Site Unit
  | key op => op.action S d
  | hasKey => silently d.hasKey
  | encrypt format data users => silently (d.encrypt S format data users)
  | encryptFor data user => silently (d.encryptFor S data user)
  | encryptText format text users => silently (d.encryptText S format text users)
  | decrypt format sealed sender => silently (d.decrypt S format sealed sender)
  | decryptAt format sealed sender asOf => silently (d.decryptAt S format sealed sender asOf)
  | decryptText format text sender => silently (d.decryptText S format text sender)
  | decryptTextAt format text sender asOf => silently (d.decryptTextAt S format text sender asOf)
  | decryptWithKeys sealed verifiers => silently (d.decryptWithKeys S sealed verifiers)
  | encryptStream source sink users => silently (d.encryptStream S source sink users)
  | decryptStream source sink => silently (d.decryptStream S source sink)
  | findUsers identities reload => silently (Device.findUsers S identities reload)
  | findUser identity reload => silently (Device.findUser S identity reload)
  | findCachedUsers identities => silently (Device.findCachedUsers S identities)
  | findCachedUser identity => silently (Device.findCachedUser S identity)
  | publicKeys identities => silently (Device.publicKeys S identities)
  | searchCached identities => silently (Device.searchCached S identities)
  | update => silently (d.update S)
  | backupState => silently d.backupState
  | backUp password => d.backUp S password
  | backUpNamed password keyName => d.backUpNamed S password keyName
  | restore password => silently (d.restore S password)
  | restoreNamed password keyName => silently (d.restoreNamed S password keyName)
  | changePassword old new => d.changePassword S old new
  | resetBackup password => d.resetBackup S password

/-- What can happen to a fleet. -/
inductive FleetEvent where
  /-- A device does something. -/
  | act (member : String) (operation : Operation)
  /-- A device joins, with an empty cache. -/
  | join (name : String) (device : Device) (store : String)
  /-- A device that keeps its cards in the same place as another one finds there what that one has. -/
  | share (name source : String)
  /-- A key store is set up, which may seal its slots. -/
  | openStore (name : String) (sealing : Option (Block 32))
  /-- Services go out of reach or come back. -/
  | outage (directory backups : Bool)
  /-- The clock is set. -/
  | clock (now : Timestamp)

namespace Fleet

/-- The fleet after an event. Events for devices that are not there do nothing. -/
def step (S : CipherSuite) (f : Fleet) : FleetEvent → Fleet
  | .act member operation =>
    match f.members.find? member with
    | none => f
    | some m => (f.perform m (operation.action S)).2
  | .join name device store =>
    f.join ⟨name, device, .empty device.settings.duplicateCardPolicy, store⟩
  | .share name source =>
    match f.members.find? name, f.members.find? source with
    | some m, some other => f.join { m with cache := { m.cache with rows := other.cache.rows } }
    | _, _ => f
  | .openStore name sealing => { f with stores := f.stores.insert ⟨name, .empty sealing⟩ }
  | .outage directory backups =>
    { f with
      directory.directory.available := directory
      backups.store.available := backups }
  | .clock now => { f with now }

/-- The fleet after some events, the first of them first. -/
def after (S : CipherSuite) (tape : Tape) (now : Timestamp) (events : List FleetEvent) : Fleet :=
  events.foldl (step S) (empty tape now)

end Fleet

/-! ## Operations -/

variable {S : CipherSuite} {s : Site}

namespace Site

/-- Whatever is done in the vault, about backups and into sinks keeps one property of a site, and so do
lookups that keep another one of their desks. -/
structure Undisturbed (P : Site → Prop) (R : LookupDesk → Prop) : Prop where
  inVault : ∀ {α : Type} (x : Action Vault α), Keeps P (inVault x) fun _ => True
  inBackup : ∀ {α : Type} (x : Action BackupDesk α), Keeps P (inBackup x) fun _ => True
  intoSink : ∀ sink x, Keeps P (Device.intoSink sink x) fun _ => True
  inLookup : ∀ {α : Type} {Q : α → Prop} {x : Action LookupDesk α},
    Keeps R x Q → Keeps P (inLookup x) Q

/-- Lookups work on a settled desk. -/
theorem Sound.settled (hs : s.Sound S) :
    LookupDesk.Settled s.listings ⟨s.cache, s.directory, s.reported⟩ :=
  ⟨hs.reliable, hs.coherent, hs.clear, rfl⟩

theorem Rests.of_desk {s' : Site} (h : s.Rests S s') {d : LookupDesk} (hd : d.Settled s.listings) :
    s.Rests S { s' with cache := d.cache, directory := d.link, reported := d.reported } := by
  refine ⟨⟨?_, hd.clear, hd.reliable, ?_⟩, hd.listings⟩
  · change d.link.listings.Sound S
    rw [hd.listings, ← h.listings]
    exact h.sound.listings
  · change d.cache.rows.Coherent d.link.listings
    rw [hd.listings]
    exact hd.coherent

theorem undisturbed_rests (S : CipherSuite) (s : Site) :
    Undisturbed (s.Rests S) (LookupDesk.Settled s.listings) where
  inVault := fun _ _ h => ⟨⟨⟨h.sound.listings, h.sound.clear, h.sound.reliable, h.sound.coherent⟩,
    h.listings⟩, fun _ _ => trivial⟩
  inBackup := fun _ _ h => ⟨⟨⟨h.sound.listings, h.sound.clear, h.sound.reliable, h.sound.coherent⟩,
    h.listings⟩, fun _ _ => trivial⟩
  intoSink := fun _ _ _ h => ⟨⟨⟨h.sound.listings, h.sound.clear, h.sound.reliable, h.sound.coherent⟩,
    h.listings⟩, fun _ _ => trivial⟩
  inLookup := by
    intro α Q x hx s' h
    obtain ⟨hd, hq⟩ := hx _ (h.listings ▸ h.sound.settled)
    exact ⟨h.of_desk hd, hq⟩

theorem Sound.rests_inVault {α : Type} (hs : s.Sound S) (x : Action Vault α) :
    s.Rests S (inVault x s).2 :=
  ((undisturbed_rests S s).inVault x s ⟨hs, rfl⟩).1

theorem Sound.rests_inBackup {α : Type} (hs : s.Sound S) (x : Action BackupDesk α) :
    s.Rests S (inBackup x s).2 :=
  ((undisturbed_rests S s).inBackup x s ⟨hs, rfl⟩).1

theorem Sound.rests_inLookup {α : Type} {Q : α → Prop} (hs : s.Sound S) {x : Action LookupDesk α}
    (hx : Keeps (LookupDesk.Settled s.listings) x Q) : s.Rests S (inLookup x s).2 :=
  ((undisturbed_rests S s).inLookup hx s ⟨hs, rfl⟩).1

end Site

theorem Issuance.ends (hs : s.Sound S) (d : Device) (i : Issuance) :
    Device.Ends S d s (Device.Issued S d s) (i.action S d s) := by
  cases i with
  | register => exact Device.register_run hs d
  | registerWith key => exact Device.registerWith_run hs d key
  | rotate => exact Device.rotate_run hs d

theorem KeyOperation.ends (hs : s.Sound S) (d : Device) (op : KeyOperation) :
    Device.Ends S d s (fun _ => s.Advances S) (op.action S d s) := by
  cases op with
  | issue i => exact (i.ends hs d).silently fun _ _ h => h.advances
  | unregister => exact (Device.unregister_run hs d).mono fun _ _ h => h.1
  | cleanUp => exact (Device.cleanUp_run hs d).mono fun _ _ h => h.advances

/-- What a device does other than about its own key keeps what is undisturbed. -/
theorem Operation.keeps {P : Site → Prop} {R : LookupDesk → Prop} {Found : String → CardChain → Prop}
    (h : Site.Undisturbed P R) (hlookup : Lookup.Maintained S R Found)
    (hupdate : ∀ listening, Keeps R (Lookup.update S listening) fun _ => True) (d : Device)
    (op : Operation) (hother : ∀ k, op ≠ .key k) : Keeps P (op.action S d) fun _ => True := by
  cases op with
  | key op => exact absurd rfl (hother op)
  | hasKey => exact (h.inVault _).silently
  | encrypt => exact (h.inVault _).silently
  | encryptFor => exact (h.inVault _).silently
  | encryptText => exact (h.inVault _).silently
  | decrypt => exact (h.inVault _).silently
  | decryptAt => exact (h.inVault _).silently
  | decryptText => exact (h.inVault _).silently
  | decryptTextAt => exact (h.inVault _).silently
  | decryptWithKeys => exact (h.inVault _).silently
  | encryptStream => exact (h.intoSink _ _).silently
  | decryptStream => exact (h.intoSink _ _).silently
  | findUsers identities reload => exact (h.inLookup (hlookup.findUsers identities reload)).silently
  | findUser identity reload => exact (h.inLookup (hlookup.findUser identity reload)).silently
  | findCachedUsers identities => exact (h.inLookup (hlookup.findCachedUsers identities)).silently
  | findCachedUser identity => exact (h.inLookup (hlookup.findCachedUser identity)).silently
  | publicKeys identities => exact (h.inLookup (hlookup.publicKeys identities)).silently
  | searchCached identities => exact (h.inLookup (hlookup.cached identities)).silently
  | update => exact (h.inLookup (hupdate d.listening)).silently
  | backupState => exact (h.inBackup _).silently
  | backUp => exact h.inBackup _
  | backUpNamed => exact h.inBackup _
  | restore => exact (h.inBackup _).silently
  | restoreNamed => exact (h.inBackup _).silently
  | changePassword => exact h.inBackup _
  | resetBackup => exact h.inBackup _

/-- What a device does other than about its own key leaves the directory's list as it is. -/
theorem Operation.rests (hs : s.Sound S) (d : Device) (op : Operation) (hother : ∀ k, op ≠ .key k) :
    s.Rests S (op.action S d s).2 :=
  (op.keeps (Site.undisturbed_rests S s) (Lookup.maintained_settled hs.listings)
    (Lookup.keeps_update hs.listings) d hother s ⟨hs, rfl⟩).1

/-- Whatever a device does keeps its site sound, and takes nothing off the directory's list. -/
theorem Operation.advances (hs : s.Sound S) (d : Device) (op : Operation) :
    s.Advances S (op.action S d s).2 := by
  by_cases hkey : ∃ k, op = .key k
  · obtain ⟨op, rfl⟩ := hkey
    exact (op.ends hs d).advances hs
  · exact (op.rests hs d fun k h => hkey ⟨k, h⟩).advances

/-! ## Fleets -/

namespace Fleet

variable {f : Fleet} {m : Member}

/-- The directory obeys its rules and every cache agrees with it. -/
structure Sound (S : CipherSuite) (f : Fleet) : Prop where
  listings : f.directory.listings.Sound S
  clear : f.directory.Clear
  reliable : ∀ m ∈ f.members.rows, m.cache.Reliable
  coherent : ∀ m ∈ f.members.rows, m.cache.rows.Coherent f.directory.listings

theorem sound_empty (S : CipherSuite) (tape : Tape) (now : Timestamp) : (empty tape now).Sound S where
  listings := Listings.sound_empty S
  clear := DirectoryLink.clear_reliable _
  reliable := nofun
  coherent := nofun

theorem Sound.site (h : f.Sound S) (hm : m ∈ f.members.rows) : (f.site m).Sound S :=
  ⟨h.listings, h.clear, h.reliable m hm, h.coherent m hm⟩

/-- A device that has worked has changed the key store that it uses. -/
theorem keysOf_returned (f : Fleet) (m : Member) (s : Site) (store : String) :
    (f.returned m s).keysOf store = if m.store = store then s.vault.keys else f.keysOf store := by
  have hfind : (f.returned m s).stores.find? store = _ := Table.find?_insert store _ f.stores
  unfold keysOf
  rw [hfind]
  by_cases hstore : m.store = store
  · rw [if_pos hstore, if_pos hstore]
    rfl
  · rw [if_neg hstore, if_neg hstore]

theorem find?_members_returned (f : Fleet) (m : Member) (s : Site) (name : String) :
    (f.returned m s).members.find? name =
      if m.name = name then some { m with cache := s.cache } else f.members.find? name :=
  Table.find?_insert name _ f.members

/-- A device joins whose cache agrees with the directory. -/
theorem Sound.join (h : f.Sound S) (hr : m.cache.Reliable)
    (hc : m.cache.rows.Coherent f.directory.listings) : (f.join m).Sound S where
  listings := h.listings
  clear := h.clear
  reliable := Table.forall_insert hr h.reliable
  coherent := Table.forall_insert hc h.coherent

/-- A device has worked. The other caches agree with the directory as it is then, since nothing was
taken off its list. -/
theorem Sound.returned (h : f.Sound S) (ha : (f.site m).Advances S s) : (f.returned m s).Sound S where
  listings := ha.sound.listings
  clear := ha.sound.clear
  reliable := Table.forall_insert ha.sound.reliable h.reliable
  coherent := Table.forall_insert ha.sound.coherent fun n hn => (h.coherent n hn).mono ha.grows

/-- A device acts if it is there. -/
theorem step_act (S : CipherSuite) (f : Fleet) (name : String) (op : Operation) :
    f.members.find? name = none ∧ f.step S (.act name op) = f ∨
    ∃ m, f.members.find? name = some m ∧
      f.step S (.act name op) = (f.perform m (op.action S)).2 := by
  rw [step]
  cases f.members.find? name with
  | none => exact .inl ⟨rfl, rfl⟩
  | some m => exact .inr ⟨m, rfl, rfl⟩

/-- Every event keeps a fleet sound. -/
theorem sound_step (h : f.Sound S) (e : FleetEvent) : (f.step S e).Sound S := by
  cases e with
  | act member operation =>
    rcases step_act S f member operation with ⟨-, hstep⟩ | ⟨m, hm, hstep⟩
    · rw [hstep]
      exact h
    · rw [hstep]
      have hsite := h.site (Table.mem_of_find? hm)
      exact h.returned (operation.advances hsite m.device)
  | join name device store =>
    exact h.join (CardCache.reliable_empty _) (CardRows.coherent_empty _)
  | share name source =>
    rw [step]
    cases hm : f.members.find? name with
    | none => exact h
    | some m =>
      cases ho : f.members.find? source with
      | none => exact h
      | some other =>
        have hcache := (h.reliable m (Table.mem_of_find? hm)).withRows other.cache.rows
        exact h.join hcache (h.coherent other (Table.mem_of_find? ho))
  | openStore name sealing => exact ⟨h.listings, h.clear, h.reliable, h.coherent⟩
  | outage directory backups =>
    exact ⟨h.listings, ⟨h.clear.searches, h.clear.checks⟩, h.reliable, h.coherent⟩
  | clock now => exact ⟨h.listings, h.clear, h.reliable, h.coherent⟩

/-- Every run keeps a fleet sound. -/
theorem sound_foldl (h : f.Sound S) (events : List FleetEvent) :
    (events.foldl (step S) f).Sound S := by
  induction events generalizing f with
  | nil => exact h
  | cons e events ih => exact ih (sound_step h e)

theorem sound_after (S : CipherSuite) (tape : Tape) (now : Timestamp) (events : List FleetEvent) :
    (after S tape now events).Sound S := sound_foldl (sound_empty S tape now) events

/-! ## Devices with their keys -/

/-- The device is there, with whatever cache. -/
def Includes (f : Fleet) (m : Member) : Prop :=
  ∃ cache, f.members.find? m.name = some { m with cache }

theorem includes_of_find? {name : String} (h : f.members.find? name = some m) : f.Includes m := by
  obtain rfl : m.name = name := Table.key_of_find? h
  exact ⟨m.cache, h⟩

/-- A device has the private key of its identity's current card. -/
structure Holds (S : CipherSuite) (f : Fleet) (m : Member) (key : KeyPair) (card : CardChain) :
    Prop where
  member : f.Includes m
  current : card ∈ f.directory.listings.current m.device.identity
  loads : Vault.loadKey S m.device.identity (f.site m).vault = (.ok key, (f.site m).vault)
  same : key.publicKey S = card.head.publicKey

/-- The device with a name, with its key and its card, if it has the key of its identity's card. -/
def holder? (S : CipherSuite) (f : Fleet) (name : String) : Option (Member × KeyPair × CardChain) :=
  (f.members.find? name).bind fun m =>
    (Vault.loadKey S m.device.identity (f.site m).vault).1.toOption.bind fun key =>
      (f.directory.listings.current m.device.identity).head?.bind fun card =>
        if key.publicKey S = card.head.publicKey then some (m, key, card) else none

theorem holds_of_holder {name : String} {key : KeyPair} {card : CardChain}
    (h : f.holder? S name = some (m, key, card)) :
    f.members.find? name = some m ∧ f.Holds S m key card := by
  obtain ⟨n, hn, h⟩ := Option.bind_eq_some_iff.1 h
  obtain ⟨k, hk, h⟩ := Option.bind_eq_some_iff.1 h
  obtain ⟨c, hc, h⟩ := Option.bind_eq_some_iff.1 h
  by_cases hsame : k.publicKey S = c.head.publicKey
  · rw [if_pos hsame] at h
    obtain ⟨rfl, hpair⟩ := Prod.mk.inj (Option.some.inj h)
    obtain ⟨rfl, rfl⟩ := Prod.mk.inj hpair
    exact ⟨hn, includes_of_find? hn, List.mem_of_head? hc, Vault.loadKey_of_toOption hk, hsame⟩
  · rw [if_neg hsame] at h
    cases h

end Fleet

end EndToEnd
