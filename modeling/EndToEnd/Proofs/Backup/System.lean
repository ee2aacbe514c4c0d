/-
  Backing up private keys, by any clients of one backup store, does what the book says.

  The system has key stores, which may seal what they hold, and a link to the backup store; clients of
  any identities act one after the other. It is what a book says (`Represents`), each event keeps it so
  (`step_simulates`), and hence the answers of any run are those of the book (`answers_as_the_book`).
-/
import EndToEnd.Proofs.Backup.Client
import EndToEnd.Proofs.CipherSuite.Transparent

namespace EndToEnd

variable {S : CipherSuite} {derive : KeyDeriver} {used : String → String → Prop}

/-- Does what a client does. -/
def KeyBackup.perform (S : CipherSuite) (b : KeyBackup) :
    BackupOperation → Action BackupDesk BackupAnswer
  | .backUp password keyName => do
    b.backUpNamed S password keyName
    pure .done
  | .restore password keyName => .key <$> b.restoreNamed S password keyName
  | .changePassword old new => do
    b.changePassword S old new
    pure .done
  | .reset password => do
    b.reset S password
    pure .done
  | .storeKey key => do
    inVault (Vault.storeKey S b.identity key)
    pure .done
  | .deleteKey => .deleted <$> inVault (Vault.deleteKey b.identity)

/-- What one client does, and when. -/
structure BackupEvent where
  client : BackupClient
  operation : BackupOperation
  now : Timestamp

/-- Key stores, by name, and the link over which all clients reach the backup store. -/
structure BackupSystem where
  stores : String → KeyStore
  link : BackupLink
  tape : Tape

namespace BackupSystem

/-- A system without keys and entries, in which nothing fails. Key stores may seal what they hold. -/
def empty (sealing : String → Option (Block 32)) (tape : Tape) : BackupSystem :=
  ⟨fun name => .empty (sealing name), .quiet .empty, tape⟩

/-- What a client works on. -/
def desk (e : BackupEvent) (s : BackupSystem) : BackupDesk :=
  ⟨⟨s.stores e.client.store, s.tape⟩, s.link, e.now⟩

/-- The system after a client has worked. -/
def returned (e : BackupEvent) (s : BackupSystem) (d : BackupDesk) : BackupSystem :=
  ⟨assign s.stores e.client.store d.vault.keys, d.link, d.vault.tape⟩

theorem stores_returned (e : BackupEvent) (s : BackupSystem) (d : BackupDesk) :
    (s.returned e d).stores e.client.store = d.vault.keys := assign_self

theorem stores_returned_of_ne {name : String} {e : BackupEvent} (h : name ≠ e.client.store)
    (s : BackupSystem) (d : BackupDesk) : (s.returned e d).stores name = s.stores name :=
  assign_of_ne h

/-- A client does something. -/
def step (S : CipherSuite) (derive : KeyDeriver) (e : BackupEvent) :
    Action BackupSystem BackupAnswer :=
  Action.on (desk e) (returned e) ((e.client.backup derive).perform S e.operation)

/-- The system is what the book says. -/
structure Represents (S : CipherSuite) (derive : KeyDeriver) (used : String → String → Prop)
    (s : BackupSystem) (m : BackupBook) : Prop where
  entries : ∃ t : BackupEntries, s.link = .quiet ⟨t, true⟩ ∧ t.Keeps S derive used m.entries
  keys : ∀ name identity, (s.stores name).Shows S identity (m.keys (name, identity))

theorem represents_empty (sealing : String → Option (Block 32)) (tape : Tape) :
    Represents S derive used (empty sealing tape) .empty where
  entries := ⟨.empty, rfl, .empty⟩
  keys := fun _ _ => rfl

/-- What is asked of an event: its passwords are in use, and private keys are locked for the client's
slot. -/
structure Admits (S : CipherSuite) (used : String → String → Prop) (e : BackupEvent) : Prop where
  used : ∀ password ∈ e.operation.passwords, Text.isBlank password = false →
    used e.client.identity password
  locks : S.Locks (Utf8.encode (Vault.keySlot e.client.identity)) 64

/-- At its desk, a client does what the book says. -/
theorem perform_simulates (h : S.Seals) (ht : derive.Tells S used) {e : BackupEvent}
    (he : Admits S used e) (others : String × String → Option KeyPair) :
    Action.Simulates (BackupDesk.Matches S derive used e.client.store others)
      ((e.client.backup derive).perform S e.operation) (BackupBook.perform e.client e.operation) := by
  have hslot := he.locks
  have hused := he.used
  obtain ⟨c, operation, now⟩ := e
  cases operation with
  | backUp password keyName =>
    exact .bind (backUp_simulates h ht (hused password List.mem_cons_self)) fun _ => .pure _
  | restore password keyName =>
    exact .map (restore_simulates h ht hslot (hused password List.mem_cons_self)) _
  | changePassword old new =>
    exact .bind (changePassword_simulates h ht (hused old List.mem_cons_self)
      (hused new (List.mem_cons_of_mem _ List.mem_cons_self))) fun _ => .pure _
  | reset password? =>
    exact .bind (reset_simulates ht fun password hp =>
      hused password (Option.mem_toList.2 hp)) fun _ => .pure _
  | storeKey key => exact .bind (storeKey_simulates h hslot key) fun _ => .pure _
  | deleteKey => exact .map deleteKey_simulates _

theorem step_simulates (h : S.Seals) (ht : derive.Tells S used) {e : BackupEvent}
    (he : Admits S used e) :
    Action.Simulates (Represents S derive used) (step S derive e)
      (BackupBook.perform e.client e.operation) := by
  intro s m hs
  obtain ⟨t, hlink, hk⟩ := hs.entries
  have hdesk : BackupDesk.Matches S derive used e.client.store m.keys (desk e s) m := by
    rw [desk, hlink]
    exact .intro hk (hs.keys e.client.store) fun _ _ => rfl
  obtain ⟨hanswer, hafter⟩ := perform_simulates h ht he m.keys _ _ hdesk
  rw [step, Action.on_run]
  refine ⟨hanswer, ?_⟩
  dsimp only
  generalize ((e.client.backup derive).perform S e.operation (desk e s)).2 = d at hafter
  generalize (BackupBook.perform e.client e.operation m).2 = m' at hafter
  obtain ⟨hk', keys', rest'⟩ := hafter
  refine ⟨⟨_, rfl, hk'⟩, fun name identity => ?_⟩
  by_cases hname : name = e.client.store
  · rw [hname, stores_returned]
    exact keys' identity
  · rw [stores_returned_of_ne hname, rest' (name, identity) hname]
    exact hs.keys name identity

/-- An identity uses a password in some event. -/
def Uses (events : List BackupEvent) (identity password : String) : Prop :=
  ∃ e ∈ events, e.client.identity = identity ∧ password ∈ e.operation.passwords ∧
    Text.isBlank password = false

/-- Whatever clients of any identities do over one backup store, with key stores of their own or shared
ones, every operation answers as it does in the book, and in the end the key stores hold the private
keys of the book. This is so where sealing always succeeds, also for the slots of the identities, where
what was sealed opens, and where the passwords that an identity uses become key pairs with different
key ids. -/
theorem answers_as_the_book (h : S.Seals) (sealing : String → Option (Block 32)) (tape : Tape)
    (events : List BackupEvent) (ht : derive.Tells S (Uses events))
    (hslots : ∀ e ∈ events, S.Locks (Utf8.encode (Vault.keySlot e.client.identity)) 64) :
    let system := Action.all (step S derive) events (empty sealing tape)
    let book := Action.all (fun e => BackupBook.perform e.client e.operation) events .empty
    system.1 = book.1 ∧ ∀ name identity, (system.2.stores name).loaded S identity =
      (book.2.keys (name, identity)).elim (.error .missingPrivateKey) .ok := by
  intro system book
  have hadmits : ∀ e ∈ events, Admits S (Uses events) e := fun e he =>
    ⟨fun password hp hblank => ⟨e, he, rfl, hp, hblank⟩, hslots e he⟩
  obtain ⟨hanswers, hend⟩ := Action.all_simulates (fun e he => step_simulates h ht (hadmits e he))
    (represents_empty sealing tape)
  exact ⟨hanswers, fun name identity => (hend.keys name identity).loaded⟩

/-- A key is backed up from one device and restored on another one, between which the password is
changed. -/
theorem answers_on_two_devices :
    let key : KeyPair := ⟨.zero 32, .littleEndian 32 7⟩
    let phone : BackupClient := ⟨"alice", "main", "phone"⟩
    let laptop : BackupClient := ⟨"alice", "main", "laptop"⟩
    let events : List BackupEvent := [⟨phone, .storeKey key, 1⟩, ⟨phone, .backUp "first" "main", 2⟩,
      ⟨laptop, .restore "second" "main", 3⟩, ⟨laptop, .changePassword "first" "second", 4⟩,
      ⟨laptop, .restore "second" "main", 5⟩, ⟨laptop, .backUp "second" "main", 6⟩,
      ⟨phone, .reset (some "first"), 7⟩, ⟨phone, .reset none, 8⟩, ⟨phone, .deleteKey, 9⟩,
      ⟨phone, .restore "second" "main", 10⟩]
    (Action.all (step .transparent (.stretching .transparent default)) events
      (empty (fun _ => some (.zero 32)) (.ofSeed 1))).1 =
      [.ok .done, .ok .done, .error .wrongPassword, .ok .done, .ok (.key key),
        .error .backupAlreadyExists, .error .wrongPassword, .ok .done, .ok (.deleted true),
        .error .noBackupFound] := by
  intro key phone laptop events
  have hseals : CipherSuite.transparent.Seals :=
    ⟨CipherSuite.transparent_agrees, CipherSuite.transparent_opens, CipherSuite.transparent_accepts,
      CipherSuite.transparent_tags, fun _ _ _ _ => CipherSuite.transparent_locks _ _⟩
  have hevents : ∀ e ∈ events, e.client.identity = "alice" ∧
      ∀ password ∈ e.operation.passwords, password = "first" ∨ password = "second" := by decide
  have hused : ∀ identity password, Uses events identity password →
      identity = "alice" ∧ (password = "first" ∨ password = "second") := by
    rintro identity password ⟨e, he, rfl, hp, -⟩
    exact ⟨(hevents e he).1, (hevents e he).2 password hp⟩
  have htells : KeyDeriver.Tells .transparent (.stretching .transparent default) (Uses events) := by
    refine ⟨fun identity password _ => ⟨_, rfl⟩, fun identity p q own other hp hq hown hother hid => ?_⟩
    obtain ⟨hidentity, hfirst⟩ := hused _ _ hp
    obtain ⟨-, hsecond⟩ := hused _ _ hq
    rw [← Except.ok.inj hown, ← Except.ok.inj hother, hidentity] at hid
    clear hp hq hown hother hidentity
    rcases hfirst with rfl | rfl <;> rcases hsecond with rfl | rfl
    · rfl
    · exact absurd hid (by decide +kernel)
    · exact absurd hid (by decide +kernel)
    · rfl
  have hall := answers_as_the_book hseals (fun _ => some (.zero 32)) (.ofSeed 1) events htells
    fun _ _ => CipherSuite.transparent_locks _ _
  rw [hall.1]
  decide +kernel

end BackupSystem

end EndToEnd
