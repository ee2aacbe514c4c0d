/-
  Sealed private keys, and the store that keeps them, while nothing else interferes.

  `SealedFor` says what is needed of a sealed private key: it opens with the key pair that it was sealed
  for and with no key pair of another key id. A suite that keeps the laws of `CipherSuite.Seals` always
  seals so (`lock_run`). Calls over a link that does not fail change the entries of the store and
  nothing else.
-/
import EndToEnd.Backup.Workflow
import EndToEnd.Proofs.Envelope.Size
import EndToEnd.Proofs.KeyStore

namespace EndToEnd

/-- The laws of a suite under which sealing always succeeds and what was sealed can be opened. -/
structure CipherSuite.Seals (S : CipherSuite) : Prop where
  agrees : S.Agrees
  opens : S.Opens
  accepts : S.Accepts
  tags : S.Tags
  locks : S.LocksUpTo Gcm.maxLength

/-- The octets are the private key, sealed for a key pair: it opens them, and no key pair with another
key id does. -/
structure SealedFor (S : CipherSuite) (own key : KeyPair) (sealed : Octets) : Prop where
  opens : Envelope.authDecrypt S sealed own (own.publicKey S) = .ok key.privateOctets
  refuses : ∀ other : KeyPair, other.keyId S ≠ own.keyId S →
    Envelope.authDecrypt S sealed other (other.publicKey S) = .error .recipientNotFound

/-- The entries of a backup store. -/
abbrev BackupEntries := Table BackupEntry.key

/-- A desk from which the store is reached and nobody interferes. -/
def BackupDesk.quiet (v : Vault) (t : BackupEntries) (now : Timestamp) : BackupDesk :=
  ⟨v, .quiet ⟨t, true⟩, now⟩

namespace KeyBackup

variable {S : CipherSuite} {v : Vault} {t : BackupEntries} {now : Timestamp}

theorem inVault_run {α : Type} (x : Action Vault α) :
    inVault x (.quiet v t now) = ((x v).1, .quiet (x v).2 t now) := rfl

/-! ## Sealing and opening -/

/-- A private key is sealed for a key pair. -/
theorem lock_run (h : S.Seals) (v : Vault) (t : BackupEntries) (now : Timestamp)
    (key own : KeyPair) :
    ∃ sealed tape, lock S key.privateOctets own (.quiet v t now) =
        (.ok sealed, .quiet ⟨v.keys, tape⟩ t now) ∧ SealedFor S own key sealed := by
  have hlength : key.privateOctets.length = 64 := by simp [KeyPair.privateOctets]
  have hone : (([own.publicKey S].map (·.keyId S)).eraseDups).length = 1 := rfl
  obtain ⟨sealed, tape, hrun⟩ := Envelope.authEncrypt_runs h.tags h.locks
    (List.cons_ne_nil (own.publicKey S) []) (by rw [hone]; decide) (by rw [hlength]; decide) own v.tape
  have hsize := Envelope.length_of_authEncrypt h.tags hrun
  have haddressable : Addressable sealed := by
    rw [Addressable, hsize, hone, hlength]
    decide
  refine ⟨sealed, tape, ?_, ?_, fun other hne => ?_⟩
  · rw [lock, inVault_run, Vault.sealing_run _ hrun]
    rfl
  · refine Envelope.authDecrypt_of_mem h.agrees h.opens h.accepts (PublicKey.distinctIds_singleton S _)
      hrun ?_ haddressable List.mem_cons_self
    rw [Addressable, hlength]
    decide
  · refine Envelope.authDecrypt_of_not_mem hrun haddressable (fun hmem => hne ?_) _
    exact List.mem_singleton.1 hmem

theorem unlock_run {e : BackupEntry} {own key : KeyPair} (h : SealedFor S own key e.ciphertext)
    (d : BackupDesk) : unlock S e own d = (.ok key.privateOctets, d) := by
  rw [unlock, h.opens]
  rfl

theorem unlock_refused {e : BackupEntry} {own other key : KeyPair}
    (h : SealedFor S own key e.ciphertext) (hne : other.keyId S ≠ own.keyId S) (d : BackupDesk) :
    unlock S e other d = (.error .wrongPassword, d) := by
  rw [unlock, h.refuses other hne]
  rfl

/-! ## Calls to the store -/

theorem fetch_run (b : KeyBackup) (keyName : String) (v : Vault) (t : BackupEntries)
    (now : Timestamp) :
    b.fetch keyName (.quiet v t now) =
      ((t.find? (b.identity, keyName)).elim (.error .noBackupFound) .ok, .quiet v t now) := by
  have hfind : b.find keyName (.quiet v t now) =
    (.ok (t.find? (b.identity, keyName)), .quiet v t now) := rfl
  rw [fetch, Action.bind_ok hfind]
  cases t.find? (b.identity, keyName) <;> rfl

theorem call_run {α : Type} (x : BackupStore.Call α) :
    call x (.quiet v t now) =
      ((x ⟨t, true⟩).1.mapError .ofTransport, ⟨v, .quiet (x ⟨t, true⟩).2, now⟩) := rfl

theorem reach_run : BackupStore.reach ⟨t, true⟩ = (.ok (), ⟨t, true⟩) := rfl

/-- An entry is not added where there is one. -/
theorem push_refused {e : BackupEntry} (h : t.has e.key = true) :
    call (BackupStore.push e) (.quiet v t now) = (.error .backupAlreadyExists, .quiet v t now) := by
  rw [call_run, BackupStore.push, Action.bind_ok reach_run, BackupStore.change]
  dsimp only
  rw [if_pos h]
  rfl

theorem push_run {e : BackupEntry} (h : t.has e.key = false) :
    call (BackupStore.push e) (.quiet v t now) = (.ok (), .quiet v (t.insert e) now) := by
  rw [call_run, BackupStore.push, Action.bind_ok reach_run, BackupStore.change]
  dsimp only
  rw [if_neg (by rw [h]; exact Bool.false_ne_true)]
  rfl

/-- The entry that is there is overwritten by one who knows its digest. -/
theorem replace_run {e current : BackupEntry} (h : t.find? e.key = some current) :
    call (BackupStore.replace e current.hash) (.quiet v t now) =
      (.ok (), .quiet v (t.insert e) now) := by
  rw [call_run, BackupStore.replace, Action.bind_ok reach_run, BackupStore.change]
  dsimp only
  rw [h]
  dsimp only
  rw [if_neg (not_not_intro rfl)]
  rfl

theorem delete_run (identity keyName : String) (v : Vault) (t : BackupEntries) (now : Timestamp) :
    call (BackupStore.delete identity keyName) (.quiet v t now) =
      (.ok (t.has (identity, keyName)), .quiet v (t.erase (identity, keyName)) now) := rfl

theorem deleteAll_run (identity : String) (v : Vault) (t : BackupEntries) (now : Timestamp) :
    ∃ n, call (BackupStore.deleteAll identity) (.quiet v t now) =
      (.ok n, .quiet v (t.keep fun e => e.identity ≠ identity) now) := ⟨_, rfl⟩

end KeyBackup

end EndToEnd
