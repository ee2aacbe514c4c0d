/-
  An operation on backups fails and changes nothing, or it is done and has changed one thing.

  Whatever the entries and the key slots hold, however passwords become keys, and whichever calls fail:
  everything that comes before the one write of an operation leaves entries and slots as they were, the
  write itself is done or refused as a whole, and nothing comes behind it. `Action.Commits` has this
  shape; each operation is put together with its rules. Others do not interfere here: what they write
  between two calls is theirs.

  Proved:
  * `BackupStore.push_atomic` and its likes: what a call to the store changes, if it is done.
  * `KeyBackup.backUpNamed_commits` and its likes: what an operation changes, if it is done.
  * `KeyBackup.fails_or_done`: all operations, from all states.
-/
import EndToEnd.Proofs.Backup.System

namespace EndToEnd

variable {S : CipherSuite} {t : BackupEntries} {α : Type}

/-! ## Calls to the store -/

namespace BackupStore

/-- The call fails and changes nothing, or it is done and has changed the entries as told. -/
def Atomic (t : BackupEntries) (x : Call α) (done : α → BackupEntries → Prop) : Prop :=
  ∀ available : Bool, (∃ e, x ⟨t, available⟩ = (.error e, ⟨t, available⟩)) ∨
    ∃ a t', x ⟨t, available⟩ = (.ok a, ⟨t', available⟩) ∧ done a t'

variable {done : α → BackupEntries → Prop}

/-- Where the store cannot be reached a call fails. -/
theorem atomic_reached {x : Call α} (h : Atomic t x done) : Atomic t (do reach; x) done := by
  intro available
  cases available with
  | false => exact .inl ⟨_, Action.bind_error rfl⟩
  | true =>
    rw [Action.bind_ok KeyBackup.reach_run]
    exact h true

theorem change_atomic (t : BackupEntries)
    (f : BackupEntries → Except TransportError BackupEntries) :
    Atomic t (change f) fun _ t' => f t = .ok t' := by
  intro available
  unfold change
  dsimp only
  cases f t with
  | error e => exact .inl ⟨e, rfl⟩
  | ok t' => exact .inr ⟨(), t', rfl, rfl⟩

theorem Atomic.mono {done' : α → BackupEntries → Prop} {x : Call α} (h : Atomic t x done)
    (hdone : ∀ a t', done a t' → done' a t') : Atomic t x done' := by
  intro available
  rcases h available with hfailed | ⟨a, t', hr, ht'⟩
  · exact .inl hfailed
  · exact .inr ⟨a, t', hr, hdone a t' ht'⟩

/-- An entry is added where there is none. -/
theorem push_atomic (t : BackupEntries) (e : BackupEntry) :
    Atomic t (push e) fun _ t' => t.has e.key = false ∧ t' = t.insert e := by
  refine atomic_reached ((change_atomic t _).mono fun _ t' ht' => ?_)
  split at ht'
  · cases ht'
  · rename_i hfree
    exact ⟨Bool.eq_false_iff.2 hfree, (Except.ok.inj ht').symm⟩

theorem pull_atomic (t : BackupEntries) (identity keyName : String) :
    Atomic t (pull identity keyName) fun found t' => found = t.find? (identity, keyName) ∧ t' = t :=
  atomic_reached fun _ => .inr ⟨_, t, rfl, rfl, rfl⟩

theorem replace_atomic (t : BackupEntries) (e : BackupEntry) (previousHash : String) :
    Atomic t (replace e previousHash) fun _ t' => t' = t.insert e := by
  refine atomic_reached ((change_atomic t _).mono fun _ t' ht' => ?_)
  split at ht'
  · cases ht'
  · split at ht'
    · cases ht'
    · exact (Except.ok.inj ht').symm

theorem replace_of_none {e : BackupEntry} (h : t.find? e.key = none) (previousHash : String) :
    replace e previousHash ⟨t, true⟩ = (.error .entryNotFound, ⟨t, true⟩) := by
  rw [replace, Action.bind_ok KeyBackup.reach_run, change]
  dsimp only
  rw [h]

/-- An entry is replaced by one who names the hash of what is there. -/
theorem replace_of_some {e current : BackupEntry} (h : t.find? e.key = some current)
    (previousHash : String) :
    replace e previousHash ⟨t, true⟩ =
      if current.hash = previousHash then (.ok (), ⟨t.insert e, true⟩)
      else (.error .hashMismatch, ⟨t, true⟩) := by
  rw [replace, Action.bind_ok KeyBackup.reach_run, change]
  dsimp only
  rw [h]
  by_cases hhash : current.hash = previousHash <;> simp [hhash]

theorem delete_atomic (t : BackupEntries) (identity keyName : String) :
    Atomic t (delete identity keyName) fun _ t' => t' = t.erase (identity, keyName) :=
  atomic_reached fun _ => .inr ⟨_, _, rfl, rfl⟩

theorem deleteAll_atomic (t : BackupEntries) (identity : String) :
    Atomic t (deleteAll identity) fun _ t' => t' = t.keep fun e => e.identity ≠ identity :=
  atomic_reached fun _ => .inr ⟨_, _, rfl, rfl⟩

end BackupStore

/-! ## Calls over a link -/

/-- The store behind the link has these entries, and nobody interferes. -/
structure BackupLink.Has (t : BackupEntries) (l : BackupLink) : Prop where
  entries : l.store.entries = t
  alone : l.meanwhile = none

/-- A call over a link is done as a whole or not at all, whether or not it arrives. -/
theorem BackupLink.call_commits {x : BackupStore.Call α} {done : α → BackupEntries → Prop}
    (h : BackupStore.Atomic t x done) :
    Action.Commits (Has t) (call x) fun a l => ∃ t', done a t' ∧ l.Has t' := by
  rintro ⟨⟨_, available⟩, faults, _⟩ ⟨rfl, rfl⟩
  unfold call
  dsimp only
  split
  · exact .inl ⟨_, _, rfl, rfl, rfl⟩
  · rcases h available with ⟨e, hr⟩ | ⟨a, t', hr, ht'⟩
    · rw [hr]
      exact .inl ⟨_, _, rfl, rfl, rfl⟩
    · rw [hr]
      exact .inr ⟨a, _, rfl, t', ht', rfl, rfl⟩

/-- Fetching an entry changes nothing where nobody interferes. -/
theorem BackupLink.pull_keeps (t : BackupEntries) (now : Timestamp) (identity keyName : String) :
    Action.Keeps (Has t) (pull now identity keyName) fun found =>
      found = t.find? (identity, keyName) := by
  intro l hl
  rcases call_commits (BackupStore.pull_atomic t identity keyName) l hl with
    ⟨e, l', hr, hl'⟩ | ⟨found, l', hr, t', ⟨hfound, rfl⟩, hl'⟩
  · rw [pull, Action.bind_error hr]
    refine ⟨hl', fun a ha => ?_⟩
    cases ha
  · obtain ⟨store, faults, _⟩ := l'
    obtain rfl := hl'.alone
    rw [pull, Action.bind_ok hr]
    refine ⟨hl', fun a ha => ?_⟩
    rw [← Except.ok.inj ha]
    exact hfound

/-! ## At the desk -/

/-- The desk has these private keys and entries at this time, and nobody interferes. -/
structure BackupDesk.Has (keys : KeyStore) (t : BackupEntries) (now : Timestamp) (d : BackupDesk) :
    Prop where
  keys : d.vault.keys = keys
  link : d.link.Has t
  now : d.now = now

namespace KeyBackup

variable {keys : KeyStore} {now : Timestamp} {b : KeyBackup}

/-- The private keys and entries after an operation that is done: it has changed one slot or one entry of
its identity, or struck out all entries of that identity. -/
inductive Done (S : CipherSuite) (b : KeyBackup) (keys : KeyStore) (t : BackupEntries)
    (now : Timestamp) : BackupOperation → BackupAnswer → KeyStore → BackupEntries → Prop
  | backUp {password keyName : String} (ciphertext : Octets)
      (free : t.has (b.identity, keyName) = false) :
      Done S b keys t now (.backUp password keyName) .done keys
        (t.insert { BackupEntry.new S now b.identity keyName ciphertext with notes })
  | restore {password keyName : String} {key : KeyPair} (stored : Octets)
      (empty : keys.hasKey b.identity = false) :
      Done S b keys t now (.restore password keyName) (.key key)
        ⟨keys.slots.insert ⟨Vault.keySlot b.identity, stored⟩, keys.sealing⟩ t
  | changePassword {old new : String} (e : BackupEntry) (ciphertext : Octets)
      (found : t.find? (b.identity, b.keyName) = some e) :
      Done S b keys t now (.changePassword old new) .done keys
        (t.insert
          { e with ciphertext, hash := BackupEntry.hashOf S ciphertext, updatedAt := now })
  | reset {password : String} :
      Done S b keys t now (.reset (some password)) .done keys (t.erase (b.identity, b.keyName))
  | resetAll :
      Done S b keys t now (.reset none) .done keys (t.keep fun e => e.identity ≠ b.identity)
  | storeKey {key : KeyPair} (stored : Octets) (empty : keys.hasKey b.identity = false) :
      Done S b keys t now (.storeKey key) .done
        ⟨keys.slots.insert ⟨Vault.keySlot b.identity, stored⟩, keys.sealing⟩ t
  | deleteKey :
      Done S b keys t now .deleteKey (.deleted (keys.hasKey b.identity))
        ⟨keys.slots.erase (Vault.keySlot b.identity), keys.sealing⟩ t

/-- The desk after an operation that is done. -/
def Finished (S : CipherSuite) (b : KeyBackup) (keys : KeyStore) (t : BackupEntries)
    (now : Timestamp) (operation : BackupOperation) (answer : BackupAnswer) (d : BackupDesk) : Prop :=
  ∃ keys' t', d.Has keys' t' now ∧ Done S b keys t now operation answer keys' t'

/-! ### What comes before the write -/

theorem inVault_keeps {x : Action Vault α} {Q : α → Prop}
    (hx : Action.Keeps (fun v => v.keys = keys) x Q) :
    Action.Keeps (BackupDesk.Has keys t now) (inVault x) Q :=
  hx.on (fun _ hd => hd.keys) fun _ _ hd hv => ⟨hv, hd.link, hd.now⟩

theorem find_keeps (keys : KeyStore) (t : BackupEntries) (now : Timestamp) (b : KeyBackup)
    (keyName : String) : Action.Keeps (BackupDesk.Has keys t now) (b.find keyName) fun found =>
      found = t.find? (b.identity, keyName) :=
  .bind .get fun d _ => (BackupLink.pull_keeps t d.now b.identity keyName).on
    (fun _ hd => hd.link) fun _ _ hd hl => ⟨hd.keys, hl, hd.now⟩

theorem fetch_keeps (keys : KeyStore) (t : BackupEntries) (now : Timestamp) (b : KeyBackup)
    (keyName : String) : Action.Keeps (BackupDesk.Has keys t now) (b.fetch keyName) fun e =>
      t.find? (b.identity, keyName) = some e := by
  refine (find_keeps keys t now b keyName).bind fun found hfound => ?_
  cases found with
  | none => exact .throw _
  | some e => exact .pure hfound.symm

/-! ### Operations -/

theorem call_commits {x : BackupStore.Call α} {done : α → BackupEntries → Prop}
    (h : BackupStore.Atomic t x done) :
    Action.Commits (BackupDesk.Has keys t now) (call x) fun a d =>
      ∃ t', done a t' ∧ d.Has keys t' now := by
  refine (BackupLink.call_commits h).on (fun _ hd => hd.link)
    (fun _ _ hd hl => ⟨hd.keys, hl, hd.now⟩) fun a d l hd hdone => ?_
  obtain ⟨t', ht', hl⟩ := hdone
  exact ⟨t', ht', hd.keys, hl, hd.now⟩

theorem storeKey_commits (S : CipherSuite) (identity : String) (key : KeyPair) :
    Action.Commits (BackupDesk.Has keys t now) (inVault (Vault.storeKey S identity key)) fun _ d =>
      keys.hasKey identity = false ∧ ∃ stored,
        d.Has ⟨keys.slots.insert ⟨Vault.keySlot identity, stored⟩, keys.sealing⟩ t now := by
  refine (Vault.storeKey_commits S identity key).on (fun _ hd => hd.keys)
    (fun _ _ hd hv => ⟨hv, hd.link, hd.now⟩) fun _ d v hd hv => ?_
  obtain ⟨hempty, stored, hkeys⟩ := hv
  exact ⟨hempty, stored, hkeys, hd.link, hd.now⟩

theorem backUpNamed_commits (S : CipherSuite) (b : KeyBackup) (password keyName : String) :
    Action.Commits (BackupDesk.Has keys t now) (b.backUpNamed S password keyName) fun _ d =>
      Finished S b keys t now (.backUp password keyName) .done d := by
  refine .after (.lifted _) fun _ _ => .after (.lifted _) fun _ _ => ?_
  refine .after (inVault_keeps (Vault.loadKey_keeps S b.identity)) fun key _ => ?_
  refine .after (.lifted _) fun own _ => ?_
  refine .after (inVault_keeps (Vault.sealing_keeps _ _)) fun ciphertext _ => ?_
  refine .after .get fun d hd => ?_
  rw [hd.now]
  refine (call_commits (BackupStore.push_atomic t _)).mono fun _ d hdone => ?_
  obtain ⟨_, ⟨hfree, rfl⟩, hd⟩ := hdone
  exact ⟨_, _, hd, .backUp ciphertext hfree⟩

theorem restoreNamed_commits (S : CipherSuite) (b : KeyBackup) (password keyName : String) :
    Action.Commits (BackupDesk.Has keys t now) (b.restoreNamed S password keyName) fun key d =>
      Finished S b keys t now (.restore password keyName) (.key key) d := by
  refine .after (.lifted _) fun _ _ => .after (.lifted _) fun _ _ => ?_
  refine .after (inVault_keeps (Vault.requireNoKey_keeps b.identity)) fun _ _ => ?_
  refine .after (.lifted _) fun own _ => ?_
  refine .after (fetch_keeps keys t now b keyName) fun e _ => ?_
  refine .after (.lifted _) fun privateKey _ => .after (.lifted _) fun key _ => ?_
  refine .answer ((storeKey_commits S b.identity key).mono fun _ d hdone => ?_)
  obtain ⟨hempty, stored, hd⟩ := hdone
  exact ⟨_, _, hd, .restore stored hempty⟩

theorem changePassword_commits (S : CipherSuite) (b : KeyBackup) (old new : String) :
    Action.Commits (BackupDesk.Has keys t now) (b.changePassword S old new) fun _ d =>
      Finished S b keys t now (.changePassword old new) .done d := by
  refine .after (.lifted _) fun _ _ => .after (.lifted _) fun _ _ => ?_
  by_cases hsame : old = new
  · rw [if_pos hsame]
    exact .throw _
  rw [if_neg hsame]
  refine .after (.lifted _) fun own _ => ?_
  refine .after (fetch_keeps keys t now b b.keyName) fun e hfound => ?_
  refine .after (.lifted _) fun privateKey _ => .after (.lifted _) fun next _ => ?_
  refine .after (inVault_keeps (Vault.sealing_keeps _ _)) fun ciphertext _ => ?_
  refine .after .get fun d hd => ?_
  rw [hd.now]
  refine (call_commits (BackupStore.replace_atomic t _ _)).mono fun _ d hdone => ?_
  obtain ⟨_, rfl, hd⟩ := hdone
  exact ⟨_, _, hd, .changePassword e ciphertext hfound⟩

theorem reset_commits (S : CipherSuite) (b : KeyBackup) (password? : Option String) :
    Action.Commits (BackupDesk.Has keys t now) (b.reset S password?) fun _ d =>
      Finished S b keys t now (.reset password?) .done d := by
  cases password? with
  | none =>
    refine .answer ((call_commits (BackupStore.deleteAll_atomic t b.identity)).mono fun _ d hdone => ?_)
    obtain ⟨_, rfl, hd⟩ := hdone
    exact ⟨_, _, hd, .resetAll⟩
  | some password =>
    refine .after (.lifted _) fun _ _ => .after (.lifted _) fun own _ => ?_
    refine .after (fetch_keeps keys t now b b.keyName) fun e _ => ?_
    refine .after (.lifted _) fun privateKey _ => ?_
    refine .answer ((call_commits
      (BackupStore.delete_atomic t b.identity b.keyName)).mono fun _ d hdone => ?_)
    obtain ⟨_, rfl, hd⟩ := hdone
    exact ⟨_, _, hd, .reset⟩

theorem deleteKey_commits (S : CipherSuite) (b : KeyBackup) :
    Action.Commits (BackupDesk.Has keys t now) (inVault (Vault.deleteKey b.identity)) fun wasThere d =>
      Finished S b keys t now .deleteKey (.deleted wasThere) d := by
  rintro d ⟨rfl, hl, hnow⟩
  exact .inr ⟨_, _, rfl, _, _, ⟨rfl, hl, hnow⟩, .deleteKey⟩

theorem perform_commits (S : CipherSuite) (b : KeyBackup) (keys : KeyStore) (t : BackupEntries)
    (now : Timestamp) (operation : BackupOperation) :
    Action.Commits (BackupDesk.Has keys t now) (b.perform S operation)
      (Finished S b keys t now operation) := by
  cases operation with
  | backUp password keyName => exact (backUpNamed_commits S b password keyName).answer
  | restore password keyName => exact (restoreNamed_commits S b password keyName).map
  | changePassword old new => exact (changePassword_commits S b old new).answer
  | reset password? => exact (reset_commits S b password?).answer
  | storeKey key =>
    refine .answer ((storeKey_commits S b.identity key).mono fun _ d hdone => ?_)
    obtain ⟨hempty, stored, hd⟩ := hdone
    exact ⟨_, _, hd, .storeKey stored hempty⟩
  | deleteKey => exact (deleteKey_commits S b).map

/-- From whatever private keys and entries, with whatever calls failing: an operation fails, and then
all private keys and all entries are as they were; or it is done, and then it has changed what `Done`
says and nothing else. -/
theorem fails_or_done (S : CipherSuite) (b : KeyBackup) (operation : BackupOperation) (v : Vault)
    (store : BackupStore) (faults : Schedule TransportError) (now : Timestamp) :
    (∃ e d, b.perform S operation ⟨v, ⟨store, faults, none⟩, now⟩ = (.error e, d) ∧
      d.vault.keys = v.keys ∧ d.link.store.entries = store.entries) ∨
    ∃ answer d, b.perform S operation ⟨v, ⟨store, faults, none⟩, now⟩ = (.ok answer, d) ∧
      b.Done S v.keys store.entries now operation answer d.vault.keys d.link.store.entries := by
  rcases perform_commits S b v.keys store.entries now operation ⟨v, ⟨store, faults, none⟩, now⟩
      ⟨rfl, ⟨rfl, rfl⟩, rfl⟩ with
    ⟨e, d, hrun, hd⟩ | ⟨answer, d, hrun, _, _, hd, hdone⟩
  · exact .inl ⟨e, d, hrun, hd.keys, hd.link.entries⟩
  · rw [← hd.keys, ← hd.link.entries] at hdone
    exact .inr ⟨answer, d, hrun, hdone⟩

/-- An entry whose ciphertext is no envelope is neither restored nor struck out by a password. -/
example :
    let b : KeyBackup := ⟨"alice", "main", fun _ _ => .ok ⟨.zero 32, .zero 32⟩⟩
    let e : BackupEntry := ⟨"alice", "main", [1, 2, 3], [], "", 1, 1⟩
    let d : BackupDesk := .quiet ⟨.empty none, .ofSeed 1⟩ (Table.empty.insert e) 2
    (b.perform .transparent (.restore "open" "main") d).1 = .error .wrongPassword ∧
      (b.perform .transparent (.reset (some "open")) d).1 = .error .wrongPassword := by
  decide +kernel

end KeyBackup

end EndToEnd
