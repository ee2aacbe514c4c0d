/-
  At its desk, a client of the backup store does what the book says.

  `BackupDesk.Matches` relates what the client finds to a book: an entry of the store opens with the
  password that the book has for it and with no other that is in use (`BackupEntry.Kept`), and the
  client's key store holds the keys of the book. Each operation keeps this and answers as the book
  does. What depends on passwords is how an entry is read, and all operations read it in one way
  (`opened_cases`).
-/
import EndToEnd.Proofs.Backup.Book
import EndToEnd.Proofs.Backup.Entry
import EndToEnd.Proofs.Message.Text

namespace EndToEnd

/-- The passwords in use become key pairs, and those of one identity have different key ids. -/
structure KeyDeriver.Tells (S : CipherSuite) (derive : KeyDeriver) (used : String → String → Prop) :
    Prop where
  derives : ∀ identity password, used identity password → ∃ own, derive identity password = .ok own
  apart : ∀ identity p q own other, used identity p → used identity q →
    derive identity p = .ok own → derive identity q = .ok other → own.keyId S = other.keyId S → p = q

variable {S : CipherSuite} {derive : KeyDeriver} {used : String → String → Prop} {t : BackupEntries}
  {entries : String × String → Option (String × KeyPair)} {identity keyName : String}

/-! ## Entries -/

/-- What the store has in a place, if anything, is what the book has there. -/
inductive BackupEntry.Kept (S : CipherSuite) (derive : KeyDeriver) (used : String → String → Prop)
    (identity : String) : Option BackupEntry → Option (String × KeyPair) → Prop
  | absent : BackupEntry.Kept S derive used identity none none
  | sealed {e : BackupEntry} {password : String} {key own : KeyPair} (hused : used identity password)
      (hown : derive identity password = .ok own) (hsealed : SealedFor S own key e.ciphertext) :
      BackupEntry.Kept S derive used identity (some e) (some (password, key))

theorem BackupEntry.Kept.isSome {e? : Option BackupEntry} {binding : Option (String × KeyPair)}
    (h : BackupEntry.Kept S derive used identity e? binding) : e?.isSome = binding.isSome := by
  cases h <;> rfl

/-- The entries of the store are those of the book. -/
def BackupEntries.Keeps (S : CipherSuite) (derive : KeyDeriver) (used : String → String → Prop)
    (t : BackupEntries) (entries : String × String → Option (String × KeyPair)) : Prop :=
  ∀ identity keyName,
    BackupEntry.Kept S derive used identity (t.find? (identity, keyName)) (entries (identity, keyName))

namespace BackupEntries.Keeps

theorem empty : Keeps S derive used .empty BackupBook.empty.entries := fun _ _ => .absent

theorem has (h : t.Keeps S derive used entries) (identity keyName : String) :
    t.has (identity, keyName) = (entries (identity, keyName)).isSome := (h identity keyName).isSome

/-- An entry is written where the book enters it. -/
theorem insert (h : t.Keeps S derive used entries) {e : BackupEntry}
    (hkey : e.key = (identity, keyName)) {entry : String × KeyPair}
    (he : BackupEntry.Kept S derive used identity (some e) (some entry)) :
    Keeps S derive used (Table.insert e t) (assign entries (identity, keyName) (some entry)) := by
  intro i n
  rw [Table.find?_insert, hkey, assign]
  by_cases hplace : (identity, keyName) = (i, n)
  · rw [if_pos hplace, if_pos hplace.symm]
    cases hplace
    exact he
  · rw [if_neg hplace, if_neg (Ne.symm hplace)]
    exact h i n

theorem erase (h : t.Keeps S derive used entries) (identity keyName : String) :
    Keeps S derive used (Table.erase (identity, keyName) t)
      (assign entries (identity, keyName) none) := by
  intro i n
  rw [Table.find?_erase, assign]
  by_cases hplace : (i, n) = (identity, keyName)
  · rw [if_pos hplace, if_pos hplace]
    exact .absent
  · rw [if_neg hplace, if_neg hplace]
    exact h i n

theorem eraseAll (h : t.Keeps S derive used entries) (identity : String) :
    Keeps S derive used (Table.keep (fun e => e.identity ≠ identity) t)
      fun place => if place.1 = identity then none else entries place := by
  intro i n
  have hkept : ∀ e : BackupEntry, decide (e.identity ≠ identity) = decide (e.key.1 ≠ identity) :=
    fun _ => rfl
  rw [Table.find?_keep (q := fun place => decide (place.1 ≠ identity)) hkept]
  dsimp only
  by_cases hi : i = identity
  · rw [if_neg (by simpa using hi), if_pos hi]
    exact .absent
  · rw [if_pos (by simpa using hi), if_neg hi]
    exact h i n

end BackupEntries.Keeps

/-! ## One client -/

/-- What a client backs up, with passwords becoming keys in a given way. -/
def BackupClient.backup (c : BackupClient) (derive : KeyDeriver) : KeyBackup :=
  ⟨c.identity, c.keyName, derive⟩

theorem BackupClient.backup_keyName (c : BackupClient) (derive : KeyDeriver) :
    (c.backup derive).keyName = c.keyName := rfl

theorem BackupClient.derived_run (c : BackupClient) {password : String} {own : KeyPair}
    (h : derive c.identity password = .ok own) (d : BackupDesk) :
    (c.backup derive).derived password d = (.ok own, d) := congrArg (·, d) h

/-- What a client finds is what the book says: of the key stores it is the client's own one that is
seen; the book has `others` for all other stores. -/
inductive BackupDesk.Matches (S : CipherSuite) (derive : KeyDeriver) (used : String → String → Prop)
    (store : String) (others : String × String → Option KeyPair) : BackupDesk → BackupBook → Prop
  | intro {v : Vault} {t : BackupEntries} {now : Timestamp} {m : BackupBook}
      (entries : t.Keeps S derive used m.entries)
      (keys : ∀ identity, v.keys.Shows S identity (m.keys (store, identity)))
      (rest : ∀ place, place.1 ≠ store → m.keys place = others place) :
      BackupDesk.Matches S derive used store others (.quiet v t now) m

section Client

variable {c : BackupClient} {others : String × String → Option KeyPair} {v : Vault}
  {now : Timestamp} {m : BackupBook} {password : String}

/-- A key is put into the store, or taken from it, where the book says so. -/
theorem BackupDesk.Matches.put {store : String} (hk : t.Keeps S derive used m.entries)
    (keys : ∀ identity, v.keys.Shows S identity (m.keys (store, identity)))
    (rest : ∀ place, place.1 ≠ store → m.keys place = others place) {v' : Vault}
    {key? : Option KeyPair} (hs : v.keys.Sets S identity key? v'.keys) :
    BackupDesk.Matches S derive used store others (.quiet v' t now) (m.put (store, identity) key?) := by
  refine .intro hk (fun i => ?_) fun place hne => ?_
  · by_cases hi : i = identity
    · rw [hi, BackupBook.keys_put_self]
      exact hs.shows
    · rw [BackupBook.keys_put_of_ne fun heq => hi (Prod.mk.inj heq).2]
      exact hs.others i hi _ (keys i)
  · rw [BackupBook.keys_put_of_ne fun heq => hne (by rw [heq])]
    exact rest place hne

/-- Reading an entry: the book and the store refuse alike, or what opens with the password is the
private key of the book. -/
theorem opened_cases (ht : derive.Tells S used) (hk : t.Keeps S derive used m.entries)
    (hu : used c.identity password) (keyName : String) (v : Vault) (now : Timestamp) :
    (∃ e, BackupBook.opened c password keyName m = (.error e, m) ∧
      ∀ {α : Type} (f : BackupEntry → Octets → Action BackupDesk α),
        ((c.backup derive).derived password >>= fun own =>
          (c.backup derive).fetch keyName >>= fun entry => KeyBackup.unlock S entry own >>= f entry)
            (.quiet v t now) = (.error e, .quiet v t now)) ∨
      ∃ entry key, BackupBook.opened c password keyName m = (.ok key, m) ∧
        t.find? (c.identity, keyName) = some entry ∧
        ∀ {α : Type} (f : BackupEntry → Octets → Action BackupDesk α),
          ((c.backup derive).derived password >>= fun own =>
            (c.backup derive).fetch keyName >>= fun entry => KeyBackup.unlock S entry own >>= f entry)
              (.quiet v t now) = f entry key.privateOctets (.quiet v t now) := by
  obtain ⟨own, hown⟩ := ht.derives c.identity password hu
  have hderived := c.derived_run hown (.quiet v t now)
  have hplace := hk c.identity keyName
  generalize hfound : t.find? (c.identity, keyName) = found at hplace
  generalize hentry : m.entries (c.identity, keyName) = bound at hplace
  have hfetch : (c.backup derive).fetch keyName (.quiet v t now) =
      (found.elim (.error .noBackupFound) .ok, .quiet v t now) := by
    rw [← hfound]
    exact (c.backup derive).fetch_run keyName v t now
  rw [BackupBook.opened, Action.bind_ok (Action.get_run _), hentry]
  cases hplace with
  | absent =>
    refine .inl ⟨_, rfl, fun f => ?_⟩
    rw [Action.bind_ok hderived]
    exact Action.bind_error hfetch
  | @sealed entry p key first hused hfirst hsealed =>
    by_cases hp : p = password
    · cases hp
      cases hfirst.symm.trans hown
      refine .inr ⟨entry, key, congrFun (if_pos rfl) m, rfl, fun f => ?_⟩
      rw [Action.bind_ok hderived, Action.bind_ok hfetch,
        Action.bind_ok (KeyBackup.unlock_run hsealed _)]
    · -- another password has a key pair with another key id
      have hne : own.keyId S ≠ first.keyId S := fun hid =>
        hp (ht.apart _ _ _ _ _ hused hu hfirst hown hid.symm)
      refine .inl ⟨.wrongPassword, congrFun (if_neg hp) m, fun f => ?_⟩
      rw [Action.bind_ok hderived, Action.bind_ok hfetch,
        Action.bind_error (KeyBackup.unlock_refused hsealed hne _)]

section Operations

variable (h : S.Seals) (ht : derive.Tells S used)
include h ht

theorem backUp_simulates (hu : Text.isBlank password = false → used c.identity password) :
    Action.Simulates (BackupDesk.Matches S derive used c.store others)
      ((c.backup derive).backUpNamed S password keyName)
      (BackupBook.backUp c password keyName) := by
  refine .lift_bind fun _ hp => .lift_bind fun _ _ => ?_
  replace hu := hu (Message.not_blank_of_requireText hp)
  rintro _ m @⟨v, t, now, _, hk, keys, rest⟩
  have hload : KeyBackup.inVault (Vault.loadKey S (c.backup derive).identity) (.quiet v t now) =
      ((m.keys (c.store, c.identity)).elim (.error .missingPrivateKey) .ok, .quiet v t now) := by
    rw [KeyBackup.inVault_run, Vault.loadKey_eq]
    exact congrArg (·, _) (keys c.identity).loaded
  rw [Action.bind_ok (Action.get_run m)]
  cases hkey : m.keys (c.store, c.identity) with
  | none =>
    rw [hkey] at hload
    rw [Action.bind_error hload]
    exact ⟨rfl, .intro hk keys rest⟩
  | some key =>
    rw [hkey] at hload
    obtain ⟨own, hown⟩ := ht.derives _ _ hu
    have hderived := c.derived_run hown (.quiet v t now)
    obtain ⟨sealed, tape, hlock, hsealed⟩ := KeyBackup.lock_run h v t now key own
    have hget : (get : Action BackupDesk BackupDesk) (.quiet ⟨v.keys, tape⟩ t now) = _ :=
      Action.get_run _
    rw [Action.bind_ok hload, Action.bind_ok hderived, Action.bind_ok hlock, Action.bind_ok hget]
    dsimp only
    rw [Action.bind_ok (Action.get_run m)]
    have hhas := hk.has c.identity keyName
    cases hentry : m.entries (c.identity, keyName) with
    | none =>
      rw [hentry] at hhas
      rw [KeyBackup.push_run]
      · exact ⟨rfl, .intro (hk.insert rfl (.sealed hu hown hsealed)) keys rest⟩
      · exact hhas
    | some entry =>
      rw [hentry] at hhas
      rw [KeyBackup.push_refused]
      · exact ⟨rfl, .intro hk keys rest⟩
      · exact hhas

theorem restore_simulates (hslot : S.Locks (Utf8.encode (Vault.keySlot c.identity)) 64)
    (hu : Text.isBlank password = false → used c.identity password) :
    Action.Simulates (BackupDesk.Matches S derive used c.store others)
      ((c.backup derive).restoreNamed S password keyName)
      (BackupBook.restore c password keyName) := by
  refine .lift_bind fun _ hp => .lift_bind fun _ _ => ?_
  replace hu := hu (Message.not_blank_of_requireText hp)
  rintro _ m @⟨v, t, now, _, hk, keys, rest⟩
  have hrequire : KeyBackup.inVault (Vault.requireNoKey (c.backup derive).identity) (.quiet v t now) =
      (if (m.keys (c.store, c.identity)).isSome then .error .privateKeyExists else .ok (),
        .quiet v t now) := by
    rw [KeyBackup.inVault_run, Vault.requireNoKey_run]
    exact congrArg (fun b : Bool => (if b then _ else _, _)) (keys c.identity).hasKey
  rw [Action.bind_ok (Action.get_run m)]
  cases hkey : m.keys (c.store, c.identity) with
  | some key =>
    rw [hkey] at hrequire
    rw [Action.bind_error hrequire]
    exact ⟨rfl, .intro hk keys rest⟩
  | none =>
    rw [hkey] at hrequire
    rw [Action.bind_ok hrequire]
    rcases opened_cases ht hk hu keyName v now with
      ⟨e, hbook, hread⟩ | ⟨entry, key, hbook, -, hread⟩
    · dsimp only
      rw [hread, Action.bind_error hbook]
      exact ⟨rfl, .intro hk keys rest⟩
    · obtain ⟨v', hstore, hsets⟩ := Vault.storeKey_sets h.opens hslot (hkey ▸ keys c.identity) key
      have hkeep : KeyBackup.inVault (Vault.storeKey S (c.backup derive).identity key)
          (.quiet v t now) = (.ok (), .quiet v' t now) := by
        rw [KeyBackup.inVault_run]
        exact congrArg (fun r => (r.1, BackupDesk.quiet r.2 t now)) hstore
      have hback : (KeyPair.ofPrivateOctets key.privateOctets).mapError Error.crypto = .ok key := by
        rewrite [KeyPair.ofPrivateOctets_privateOctets]
        rfl
      dsimp only
      rw [hread, Action.bind_ok hbook, hback, Action.bind_ok (Action.lift_run _ _),
        Action.bind_ok hkeep]
      exact ⟨rfl, .put hk keys rest hsets⟩

theorem changePassword_simulates {old new : String}
    (hold : Text.isBlank old = false → used c.identity old)
    (hnew : Text.isBlank new = false → used c.identity new) :
    Action.Simulates (BackupDesk.Matches S derive used c.store others)
      ((c.backup derive).changePassword S old new) (BackupBook.changePassword c old new) := by
  refine .lift_bind fun _ hp => .lift_bind fun _ hq => ?_
  replace hold := hold (Message.not_blank_of_requireText hp)
  replace hnew := hnew (Message.not_blank_of_requireText hq)
  rintro _ m @⟨v, t, now, _, hk, keys, rest⟩
  by_cases hsame : old = new
  · rw [if_pos hsame, if_pos hsame]
    exact ⟨rfl, .intro hk keys rest⟩
  · rw [if_neg hsame, if_neg hsame]
    rcases opened_cases ht hk hold c.keyName v now with
      ⟨e, hbook, hread⟩ | ⟨entry, key, hbook, hfound, hread⟩
    · rw [c.backup_keyName, hread, Action.bind_error hbook]
      exact ⟨rfl, .intro hk keys rest⟩
    · obtain ⟨next, hnext⟩ := ht.derives _ _ hnew
      have hderived := c.derived_run hnext (.quiet v t now)
      obtain ⟨sealed, tape, hlock, hsealed⟩ := KeyBackup.lock_run h v t now key next
      have hget : (get : Action BackupDesk BackupDesk) (.quiet ⟨v.keys, tape⟩ t now) = _ :=
        Action.get_run _
      have hplace : (entry.withCiphertext S now sealed).key = (c.identity, c.keyName) := by
        rw [← Table.key_of_find? hfound]
        rfl
      rw [c.backup_keyName, hread, Action.bind_ok hbook, Action.bind_ok hderived, Action.bind_ok hlock,
        Action.bind_ok hget]
      have hreplace : KeyBackup.call
          (BackupStore.replace (entry.withCiphertext S now sealed) entry.hash)
          (.quiet ⟨v.keys, tape⟩ t now) =
            (.ok (), .quiet ⟨v.keys, tape⟩ (t.insert (entry.withCiphertext S now sealed)) now) :=
        KeyBackup.replace_run (hplace ▸ hfound)
      have hnow : (BackupDesk.quiet ⟨v.keys, tape⟩ t now).now = now := rfl
      rw [hnow, hreplace]
      exact ⟨rfl, .intro (hk.insert hplace (.sealed hnew hnext hsealed)) keys rest⟩

omit h in
/-- Without a password all entries of the identity go, whatever passwords they have. -/
theorem reset_simulates {password? : Option String}
    (hu : ∀ password ∈ password?, Text.isBlank password = false → used c.identity password) :
    Action.Simulates (BackupDesk.Matches S derive used c.store others)
      ((c.backup derive).reset S password?) (BackupBook.reset c password?) := by
  cases password? with
  | none =>
    rintro _ m @⟨v, t, now, _, hk, keys, rest⟩
    obtain ⟨n, hall⟩ := KeyBackup.deleteAll_run c.identity v t now
    have hreset : (c.backup derive).reset S none (.quiet v t now) =
        (.ok (), .quiet v (t.keep fun e => e.identity ≠ c.identity) now) := Action.bind_ok hall
    rw [hreset]
    exact ⟨rfl, .intro (hk.eraseAll c.identity) keys rest⟩
  | some password =>
    refine .lift_bind fun _ hp => ?_
    replace hu := hu password rfl (Message.not_blank_of_requireText hp)
    rintro _ m @⟨v, t, now, _, hk, keys, rest⟩
    rcases opened_cases ht hk hu c.keyName v now with
      ⟨e, hbook, hread⟩ | ⟨entry, key, hbook, -, hread⟩
    · rw [c.backup_keyName, hread, Action.bind_error hbook]
      exact ⟨rfl, .intro hk keys rest⟩
    · have hdelete := KeyBackup.delete_run c.identity c.keyName v t now
      rw [c.backup_keyName, hread, Action.bind_ok hbook]
      rw [show (c.backup derive).identity = c.identity from rfl, Action.bind_ok hdelete]
      exact ⟨rfl, .intro (hk.erase c.identity c.keyName) keys rest⟩

omit ht in
theorem storeKey_simulates (hslot : S.Locks (Utf8.encode (Vault.keySlot c.identity)) 64)
    (key : KeyPair) :
    Action.Simulates (BackupDesk.Matches S derive used c.store others)
      (KeyBackup.inVault (Vault.storeKey S c.identity key)) (BackupBook.storeKey c key) := by
  rintro _ m @⟨v, t, now, _, hk, keys, rest⟩
  rw [KeyBackup.inVault_run, BackupBook.storeKey, Action.bind_ok (Action.get_run m)]
  cases hkey : m.keys (c.store, c.identity) with
  | none =>
    obtain ⟨v', hstore, hsets⟩ := Vault.storeKey_sets h.opens hslot (hkey ▸ keys c.identity) key
    rw [hstore]
    exact ⟨rfl, .put hk keys rest hsets⟩
  | some had =>
    have hsome := (keys c.identity).hasKey
    rw [hkey] at hsome
    rw [Vault.storeKey_refused hsome]
    exact ⟨rfl, .intro hk keys rest⟩

omit h ht in
theorem deleteKey_simulates :
    Action.Simulates (BackupDesk.Matches S derive used c.store others)
      (KeyBackup.inVault (Vault.deleteKey c.identity)) (BackupBook.deleteKey c) := by
  rintro _ m @⟨v, t, now, _, hk, keys, rest⟩
  obtain ⟨v', hdelete, hsets⟩ := Vault.deleteKey_sets S c.identity v
  rw [KeyBackup.inVault_run, hdelete, (keys c.identity).hasKey]
  exact ⟨rfl, .put hk keys rest hsets⟩

end Operations

end Client

end EndToEnd
