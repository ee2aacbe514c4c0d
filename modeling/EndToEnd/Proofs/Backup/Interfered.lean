/-
  Operations on backups while others act on the store.

  Changing a password and deleting a backup read the entry first and write to the store last. In between
  others may do anything. A new ciphertext takes the place of what is there then only if that has the
  digest of what was read; so a change of passwords undoes nothing, it fails and leaves what the others
  left. Deleting looks at what was read only, and strikes out whatever is there then.

  Proved:
  * `KeyBackup.fetch_reaches`: what is read is from before the others act.
  * `KeyBackup.changePassword_interfered`, `KeyBackup.reset_interfered`: how the two operations end.
  * `KeyBackup.changePassword_refused`: who overwrites or deletes the entry, or brings the store down, is
    not overwritten.
-/
import EndToEnd.Proofs.Backup.Outcome

namespace EndToEnd

variable {S : CipherSuite} {α : Type} {store left : BackupStore} {act : Interference}
  {meanwhile : Option Interference} {keys : KeyStore} {now : Timestamp} {identity keyName : String}

/-! ## Calls to the store -/

namespace BackupStore

/-- The call fails and changes nothing, or it is answered and the answer and the store are as told. -/
def Ends (x : Call α) (store : BackupStore) (done : α → BackupStore → Prop) : Prop :=
  (∃ e, x store = (.error e, store)) ∨ ∃ a store', x store = (.ok a, store') ∧ done a store'

theorem pull_ends (store : BackupStore) (identity keyName : String) :
    Ends (pull identity keyName) store fun found store' =>
      found = store.entries.find? (identity, keyName) ∧ store' = store := by
  obtain ⟨t, available⟩ := store
  cases available with
  | false => exact .inl ⟨_, Action.bind_error rfl⟩
  | true => exact .inr ⟨_, _, rfl, rfl, rfl⟩

theorem replace_ends (store : BackupStore) (e : BackupEntry) (previousHash : String) :
    Ends (replace e previousHash) store fun _ store' =>
      store.available = true ∧ (∃ current, store.entries.find? e.key = some current ∧
        current.hash = previousHash) ∧ store' = { store with entries := store.entries.insert e } := by
  obtain ⟨t, available⟩ := store
  cases available with
  | false => exact .inl ⟨_, Action.bind_error rfl⟩
  | true =>
    cases hfound : t.find? e.key with
    | none => exact .inl ⟨_, replace_of_none hfound previousHash⟩
    | some current =>
      have hrun := replace_of_some hfound previousHash
      by_cases hhash : current.hash = previousHash
      · rw [if_pos hhash] at hrun
        exact .inr ⟨(), _, hrun, rfl, ⟨current, rfl, hhash⟩, rfl⟩
      · rw [if_neg hhash] at hrun
        exact .inl ⟨_, hrun⟩

theorem delete_ends (store : BackupStore) (identity keyName : String) :
    Ends (delete identity keyName) store fun _ store' =>
      store' = { store with entries := store.entries.erase (identity, keyName) } := by
  obtain ⟨t, available⟩ := store
  cases available with
  | false => exact .inl ⟨_, Action.bind_error rfl⟩
  | true => exact .inr ⟨_, _, rfl, rfl⟩

end BackupStore

/-! ## Calls over a link on which others may act -/

namespace BackupLink

/-- This store is behind the link, and this is what others are still about to do. -/
structure Shows (store : BackupStore) (meanwhile : Option Interference) (l : BackupLink) : Prop where
  store : l.store = store
  meanwhile : l.meanwhile = meanwhile

theorem call_reaches {x : BackupStore.Call α} {done : α → BackupStore → Prop}
    (h : BackupStore.Ends x store done) :
    Action.Reaches (Shows store meanwhile) (Shows store meanwhile) (call x) fun a l =>
      ∃ store', done a store' ∧ l.Shows store' meanwhile := by
  rintro ⟨_, faults, _⟩ ⟨rfl, rfl⟩
  unfold call
  dsimp only
  split
  · exact .inl ⟨_, _, rfl, rfl, rfl⟩
  · rcases h with ⟨e, hr⟩ | ⟨a, store', hr, hdone⟩
    · rw [hr]
      exact .inl ⟨_, _, rfl, rfl, rfl⟩
    · rw [hr]
      exact .inr ⟨a, _, rfl, store', hdone, rfl, rfl⟩

/-- What is fetched is from before the others act; behind it they have acted. -/
theorem pull_reaches (store : BackupStore) (act : Interference) (now : Timestamp)
    (identity keyName : String) :
    Action.Reaches (Shows store (some act)) (Shows store (some act)) (pull now identity keyName)
      fun found l => found = store.entries.find? (identity, keyName) ∧
        l.Shows (act now identity keyName store) none := by
  refine .bind (call_reaches (BackupStore.pull_ends store identity keyName)) fun found => ?_
  rintro ⟨_, faults, _⟩ ⟨_, ⟨rfl, rfl⟩, rfl, rfl⟩
  exact .inr ⟨_, _, rfl, rfl, rfl, rfl⟩

end BackupLink

/-! ## Operations -/

/-- The desk has these private keys at this time, and a link to this store. -/
structure BackupDesk.Shows (keys : KeyStore) (store : BackupStore) (meanwhile : Option Interference)
    (now : Timestamp) (d : BackupDesk) : Prop where
  keys : d.vault.keys = keys
  link : d.link.Shows store meanwhile
  now : d.now = now

/-- Either nothing was fetched yet, or the others have acted and nothing else has happened. -/
def BackupDesk.Undone (keys : KeyStore) (store : BackupStore) (act : Interference)
    (left : BackupStore) (now : Timestamp) (d : BackupDesk) : Prop :=
  d.Shows keys store (some act) now ∨ d.Shows keys left none now

namespace KeyBackup

theorem inVault_keeps_shown {x : Action Vault α} {Q : α → Prop}
    (hx : Action.Keeps (fun v => v.keys = keys) x Q) :
    Action.Keeps (BackupDesk.Shows keys store meanwhile now) (inVault x) Q :=
  hx.on (fun _ hd => hd.keys) fun _ _ hd hv => ⟨hv, hd.link, hd.now⟩

theorem fetch_reaches (keys : KeyStore) (store : BackupStore) (act : Interference) (now : Timestamp)
    (b : KeyBackup) (keyName : String) :
    let left := act now b.identity keyName store
    Action.Reaches (BackupDesk.Shows keys store (some act) now)
      (BackupDesk.Undone keys store act left now) (b.fetch keyName) fun e d =>
        store.entries.find? (b.identity, keyName) = some e ∧ d.Shows keys left none now := by
  intro left
  have hfind : Action.Reaches (BackupDesk.Shows keys store (some act) now)
      (BackupDesk.Undone keys store act left now) (b.find keyName) fun found d =>
        found = store.entries.find? (b.identity, keyName) ∧ d.Shows keys left none now := by
    refine .after .get (fun _ => .inl) fun d hd => ?_
    rw [hd.now]
    refine (BackupLink.pull_reaches store act now b.identity keyName).on (fun _ hd => hd.link)
      (fun _ _ hd hl => .inl ⟨hd.keys, hl, hd.now⟩) fun found d l hd hpulled => ?_
    exact ⟨hpulled.1, hd.keys, hpulled.2, hd.now⟩
  refine .bind hfind fun found => ?_
  cases found with
  | none => exact .throw fun d hd => .inr hd.2
  | some e => exact .pure fun d hd => ⟨hd.1.symm, hd.2⟩

/-- A call to the store when the others have acted. -/
theorem call_reaches {x : BackupStore.Call α} {done : α → BackupStore → Prop}
    (h : BackupStore.Ends x left done) :
    Action.Reaches (BackupDesk.Shows keys left none now) (BackupDesk.Undone keys store act left now)
      (call x) fun a d => ∃ store', done a store' ∧ d.Shows keys store' none now := by
  refine (BackupLink.call_reaches h).on (fun _ hd => hd.link)
    (fun _ _ hd hl => .inr ⟨hd.keys, hl, hd.now⟩) fun a d l hd hdone => ?_
  obtain ⟨store', hdone, hl⟩ := hdone
  exact ⟨store', hdone, hd.keys, hl, hd.now⟩

/-- The password has been changed in what the others left: the entry there had the digest of the one
that was read. -/
def Changed (S : CipherSuite) (b : KeyBackup) (store left : BackupStore) (now : Timestamp)
    (store' : BackupStore) : Prop :=
  ∃ read current ciphertext, store.entries.find? (b.identity, b.keyName) = some read ∧
    left.available = true ∧ left.entries.find? (b.identity, b.keyName) = some current ∧
    current.hash = read.hash ∧
    store' = { left with entries := left.entries.insert (read.withCiphertext S now ciphertext) }

/-- The backup has been deleted from what the others left, since the password opened the one that was
read. -/
def Deleted (S : CipherSuite) (b : KeyBackup) (password : String) (store left store' : BackupStore) :
    Prop :=
  ∃ read own privateKey, store.entries.find? (b.identity, b.keyName) = some read ∧
    b.derive b.identity password = .ok own ∧
    Envelope.authDecrypt S read.ciphertext own (own.publicKey S) = .ok privateKey ∧
    store' = { left with entries := left.entries.erase (b.identity, b.keyName) }

theorem changePassword_reaches (S : CipherSuite) (b : KeyBackup) (old new : String) :
    let left := act now b.identity b.keyName store
    Action.Reaches (BackupDesk.Shows keys store (some act) now)
      (BackupDesk.Undone keys store act left now) (b.changePassword S old new) fun _ d =>
        ∃ store', b.Changed S store left now store' ∧ d.Shows keys store' none now := by
  intro left
  have before : ∀ d : BackupDesk, d.Shows keys store (some act) now → d.Undone keys store act left now :=
    fun _ => .inl
  refine .after (.lifted _) before fun _ _ => .after (.lifted _) before fun _ _ => ?_
  by_cases hsame : old = new
  · rw [if_pos hsame]
    exact .throw before
  rw [if_neg hsame]
  refine .after (.lifted _) before fun own _ => ?_
  refine .bind (fetch_reaches keys store act now b b.keyName) fun read => ?_
  -- from here on the store is what the others left
  rintro d ⟨hread, hd⟩
  have behind : ∀ d : BackupDesk, d.Shows keys left none now → d.Undone keys store act left now :=
    fun _ => .inr
  have hplace : read.key = (b.identity, b.keyName) := Table.key_of_find? hread
  refine Action.Reaches.after (.lifted _) behind (fun privateKey _ => ?_) d hd
  refine .after (.lifted _) behind fun next _ => ?_
  refine .after (inVault_keeps_shown (Vault.sealing_keeps _ _)) behind fun ciphertext _ => ?_
  refine .after .get behind fun d hd => ?_
  rw [hd.now]
  refine .mono (call_reaches (BackupStore.replace_ends left _ _)) fun _ d hdone => ?_
  obtain ⟨_, ⟨hreached, ⟨current, hcurrent, hhash⟩, rfl⟩, hd⟩ := hdone
  have hcurrent : left.entries.find? (b.identity, b.keyName) = some current := by
    rw [← hplace]
    exact hcurrent
  exact ⟨_, ⟨read, current, ciphertext, hread, hreached, hcurrent, hhash, rfl⟩, hd⟩

theorem reset_reaches (S : CipherSuite) (b : KeyBackup) (password : String) :
    let left := act now b.identity b.keyName store
    Action.Reaches (BackupDesk.Shows keys store (some act) now)
      (BackupDesk.Undone keys store act left now) (b.reset S (some password)) fun _ d =>
        ∃ store', b.Deleted S password store left store' ∧ d.Shows keys store' none now := by
  intro left
  have before : ∀ d : BackupDesk, d.Shows keys store (some act) now → d.Undone keys store act left now :=
    fun _ => .inl
  refine .after (.lifted _) before fun _ _ => ?_
  refine .after (.lift fun _ h => h) before fun own hown => ?_
  refine .bind (fetch_reaches keys store act now b b.keyName) fun read => ?_
  rintro d ⟨hread, hd⟩
  refine Action.Reaches.after (.lift fun _ h => h) (fun _ => .inr) (fun privateKey hopen => ?_) d hd
  refine .bind (call_reaches (BackupStore.delete_ends left b.identity b.keyName)) fun _ => .pure ?_
  rintro d ⟨_, rfl, hd⟩
  have hopen : Envelope.authDecrypt S read.ciphertext own (own.publicKey S) = .ok privateKey := by
    cases hrun : Envelope.authDecrypt S read.ciphertext own (own.publicKey S) with
    | error e => rw [hrun] at hopen; cases hopen
    | ok key => rw [hrun] at hopen; cases hopen; rfl
  exact ⟨_, ⟨read, own, privateKey, hread, hown, hopen, rfl⟩, hd⟩

/-- A desk at which others will act on the store once something was fetched. -/
def disturbed (v : Vault) (store : BackupStore) (faults : Schedule TransportError) (act : Interference)
    (now : Timestamp) : BackupDesk := ⟨v, ⟨store, faults, some act⟩, now⟩

theorem disturbed_run {v : Vault} {x : Action BackupDesk Unit} {done : BackupStore → Prop}
    (h : Action.Reaches (BackupDesk.Shows v.keys store (some act) now)
      (BackupDesk.Undone v.keys store act left now) x fun _ d =>
        ∃ store', done store' ∧ d.Shows v.keys store' none now) (faults : Schedule TransportError) :
    let run := x (disturbed v store faults act now)
    run.2.vault.keys = v.keys ∧
      ((∃ e, run.1 = .error e) ∧ (run.2.link.store = store ∨ run.2.link.store = left) ∨
        run.1 = .ok () ∧ done run.2.link.store) := by
  intro run
  rcases h (disturbed v store faults act now) ⟨rfl, ⟨rfl, rfl⟩, rfl⟩ with
    ⟨e, d, hrun, hd | hd⟩ | ⟨_, d, hrun, store', hdone, hd⟩
  · rw [show run = _ from hrun]
    exact ⟨hd.keys, .inl ⟨⟨e, rfl⟩, .inl hd.link.store⟩⟩
  · rw [show run = _ from hrun]
    exact ⟨hd.keys, .inl ⟨⟨e, rfl⟩, .inr hd.link.store⟩⟩
  · rw [show run = _ from hrun]
    refine ⟨hd.keys, .inr ⟨rfl, ?_⟩⟩
    rw [hd.link.store]
    exact hdone

/-- Whatever others do behind the read, and whichever calls fail: changing a password leaves the private
keys alone. It fails, and then the store is as it was or as the others left it; or it is done, and then
the entry that the others left had the digest of the one that was read. -/
theorem changePassword_interfered (S : CipherSuite) (b : KeyBackup) (old new : String) (v : Vault)
    (store : BackupStore) (faults : Schedule TransportError) (act : Interference) (now : Timestamp) :
    let left := act now b.identity b.keyName store
    let run := b.changePassword S old new (disturbed v store faults act now)
    run.2.vault.keys = v.keys ∧
      ((∃ e, run.1 = .error e) ∧ (run.2.link.store = store ∨ run.2.link.store = left) ∨
        run.1 = .ok () ∧ b.Changed S store left now run.2.link.store) :=
  disturbed_run (changePassword_reaches S b old new) faults

/-- Deleting a backup with a password leaves the private keys alone too. It fails, and then the store is
as it was or as the others left it; or it is done, and then the password opened the entry that was read,
while the one that was struck out is what the others left, whatever that was. -/
theorem reset_interfered (S : CipherSuite) (b : KeyBackup) (password : String) (v : Vault)
    (store : BackupStore) (faults : Schedule TransportError) (act : Interference) (now : Timestamp) :
    let left := act now b.identity b.keyName store
    let run := b.reset S (some password) (disturbed v store faults act now)
    run.2.vault.keys = v.keys ∧
      ((∃ e, run.1 = .error e) ∧ (run.2.link.store = store ∨ run.2.link.store = left) ∨
        run.1 = .ok () ∧ b.Deleted S password store left run.2.link.store) :=
  disturbed_run (reset_reaches S b password) faults

end KeyBackup

/-! ## What others do -/

/-- What the others leave in the place of an entry, if they leave the store within reach and something
there, has not the digest of what was there before. -/
def Interference.Prevents (act : Interference) (now : Timestamp) (identity keyName : String)
    (store : BackupStore) : Prop :=
  ∀ read current, store.entries.find? (identity, keyName) = some read →
    (act now identity keyName store).available = true →
      (act now identity keyName store).entries.find? (identity, keyName) = some current →
        current.hash ≠ read.hash

namespace Interference

/-- A ciphertext with another digest prevents it. -/
theorem overwrite_prevents (S : CipherSuite) (now : Timestamp) {ciphertext : Octets}
    (h : ∀ read, store.entries.find? (identity, keyName) = some read →
      read.hash ≠ BackupEntry.hashOf S ciphertext) :
    (overwrite S ciphertext).Prevents now identity keyName store := by
  intro read current hread _ hcurrent
  have hplace : (read.withCiphertext S now ciphertext).key = (identity, keyName) := by
    show read.key = (identity, keyName)
    exact Table.key_of_find? hread
  rw [overwrite, hread] at hcurrent
  dsimp only at hcurrent
  rw [Table.find?_insert, if_pos hplace] at hcurrent
  obtain rfl := Option.some.inj hcurrent
  exact Ne.symm (h read hread)

theorem delete_prevents (now : Timestamp) (identity keyName : String) (store : BackupStore) :
    delete.Prevents now identity keyName store := by
  intro read current _ _ hcurrent
  rw [delete, Table.find?_erase, if_pos rfl] at hcurrent
  cases hcurrent

theorem outage_prevents (now : Timestamp) (identity keyName : String) (store : BackupStore) :
    outage.Prevents now identity keyName store := by
  intro read current _ hreached
  cases hreached

end Interference

/-- A change of passwords undoes nothing that prevents it: it fails, and the store is as it was or as the
others left it. -/
theorem KeyBackup.changePassword_refused (b : KeyBackup) (old new : String) (v : Vault)
    (faults : Schedule TransportError) (h : act.Prevents now b.identity b.keyName store) :
    let run := b.changePassword S old new (disturbed v store faults act now)
    (∃ e, run.1 = .error e) ∧
      (run.2.link.store = store ∨ run.2.link.store = act now b.identity b.keyName store) := by
  intro run
  obtain ⟨-, hfailed | ⟨-, hchanged⟩⟩ :=
    changePassword_interfered S b old new v store faults act now
  · exact hfailed
  · obtain ⟨read, current, _, hread, hreached, hcurrent, hhash, -⟩ := hchanged
    exact absurd hhash (h read current hread hreached hcurrent)

end EndToEnd
