/-
  What operations on backups answer, in terms of what becomes of the passwords that they are given.

  An operation is done only if all its passwords become keys, and an operation that fails because a password
  does not become a key was given that password. Everything else that an operation is made of fails with
  other errors (`Action.Plain`), whatever the key store and the backup store hold and whatever others do.
-/
import EndToEnd.Proofs.Backup.Outcome

namespace EndToEnd

/-- No key could be made of a password. -/
def Error.isDerivation : Error → Bool
  | keyDerivationFailed _ => true
  | _ => false

/-- The action never fails because no key could be made of a password. -/
def Action.Plain {σ α : Type} (x : Action σ α) : Prop :=
  Action.Answers x (fun _ => True) fun e => e.isDerivation = false

/-- What a result is reported as when it is a failure of another kind. -/
theorem Error.plain_of_mapError {ε α : Type} {r : Except ε α} {f : ε → Error} {e : Error}
    (hf : ∀ e, (f e).isDerivation = false) (h : r.mapError f = .error e) : e.isDerivation = false := by
  cases r with
  | ok a => cases h
  | error e' =>
    cases h
    exact hf e'

/-! ## What operations are made of -/

section Plain

variable {S : CipherSuite} {σ α : Type}

theorem Action.plain_lift {r : Except Error α} (h : ∀ e, r = .error e → e.isDerivation = false) :
    Action.Plain (Action.lift r : Action σ α) :=
  .lift (fun _ _ => trivial) h

theorem Message.requireText_plain (name text : String) :
    Action.Plain (Action.lift (requireText name text) : Action σ Unit) := by
  refine Action.plain_lift fun e he => ?_
  unfold requireText at he
  split at he
  · cases he
    rfl
  · cases he

theorem Vault.sealing_plain {onError : CryptoError → Error}
    (h : ∀ e, (onError e).isDerivation = false) (x : Envelope.Sealing α) :
    Action.Plain (sealing onError x) :=
  fun _ => ⟨fun _ _ => trivial, fun _ he => Error.plain_of_mapError h he⟩

theorem Vault.valueOf_plain {slot : String} {stored : Octets} {key? : Option (Block 32)} {e : Error}
    (h : valueOf S slot stored key? = .error e) : e.isDerivation = false := by
  unfold valueOf at h
  split at h
  · cases h
  split at h
  · cases h
    rfl
  · exact Error.plain_of_mapError (fun _ => rfl) h

theorem Vault.load_plain (slot : String) : Action.Plain (load S slot) := by
  refine fun v => ⟨fun _ _ => trivial, fun e he => ?_⟩
  unfold load at he
  split at he
  · cases he
  · rename_i s _
    cases hvalue : valueOf S slot s.stored v.keys.sealing with
    | ok value =>
      rw [hvalue] at he
      cases he
    | error e' =>
      rw [hvalue] at he
      cases he
      exact valueOf_plain hvalue

theorem Vault.loadKey_plain (identity : String) : Action.Plain (loadKey S identity) := by
  refine .bind (load_plain _) fun value? _ => ?_
  cases value? with
  | none => exact .throw rfl
  | some value => exact Action.plain_lift fun _ => Error.plain_of_mapError fun _ => rfl

theorem Vault.requireNoKey_plain (identity : String) : Action.Plain (requireNoKey identity) := by
  refine fun v => ⟨fun _ _ => trivial, fun e he => ?_⟩
  rw [requireNoKey_run] at he
  split at he
  · cases he
    rfl
  · cases he

theorem Vault.storeKey_plain (identity : String) (key : KeyPair) :
    Action.Plain (storeKey S identity key) := by
  refine .bind (requireNoKey_plain identity) fun _ _ => .bind .get fun v _ => ?_
  have hform : Action.Plain
      (storedForm S (keySlot identity) key.privateOctets v.keys.sealing) := by
    unfold storedForm
    cases v.keys.sealing with
    | none => exact .pure trivial
    | some k => exact .bind (sealing_plain (fun _ => rfl) _) fun _ _ => .pure trivial
  exact .bind hform fun _ _ => .modify _

theorem BackupLink.call_plain (x : BackupStore.Call α) : Action.Plain (call x) := by
  refine fun l => ⟨fun _ _ => trivial, fun e he => ?_⟩
  have htransport (e : TransportError) : (Error.ofTransport e).isDerivation = false := by
    cases e <;> rfl
  unfold call at he
  split at he
  · cases he
    exact htransport _
  · exact Error.plain_of_mapError htransport he

theorem BackupLink.pull_plain (now : Timestamp) (identity keyName : String) :
    Action.Plain (pull now identity keyName) :=
  .bind (call_plain _) fun _ _ => .bind (.modify _) fun _ _ => .pure trivial

namespace KeyBackup

variable {b : KeyBackup}

theorem fetch_plain (keyName : String) : Action.Plain (b.fetch keyName) := by
  refine .bind (.bind .get fun d _ => (BackupLink.pull_plain d.now b.identity keyName).on)
    fun found _ => ?_
  cases found with
  | none => exact .throw rfl
  | some e => exact .pure trivial

theorem lock_plain (privateKey : Octets) (derived : KeyPair) :
    Action.Plain (lock S privateKey derived) :=
  (Vault.sealing_plain (fun _ => rfl) _).on

theorem unlock_plain (e : BackupEntry) (derived : KeyPair) : Action.Plain (unlock S e derived) :=
  Action.plain_lift fun _ => Error.plain_of_mapError fun _ => rfl

end KeyBackup

end Plain

/-! ## Operations -/

namespace KeyBackup

variable {S : CipherSuite} {b : KeyBackup} {passwords : List String} {α : Type}

/-- Each of the passwords becomes a key. -/
def Derives (b : KeyBackup) (passwords : List String) : Prop :=
  ∀ p ∈ passwords, ∃ key, b.derive b.identity p = .ok key

/-- If the error is that no key could be made of a password, it was one of these, and this is why. -/
def Blames (b : KeyBackup) (passwords : List String) (e : Error) : Prop :=
  e.isDerivation = true → ∃ p ∈ passwords, b.derive b.identity p = .error e

theorem blames_of_plain {x : Action BackupDesk α} (hx : Action.Plain x) :
    Action.Answers x (fun _ => True) (b.Blames passwords) := by
  refine hx.mono (fun _ h => h) fun e hplain hderivation => ?_
  rw [hplain] at hderivation
  cases hderivation

theorem derived_answers {password : String} (h : password ∈ passwords) :
    Action.Answers (b.derived password)
      (fun _ => ∃ key, b.derive b.identity password = .ok key) (b.Blames passwords) :=
  .lift (fun key hkey => ⟨key, hkey⟩) fun _ he _ => ⟨password, h, he⟩

theorem backUpNamed_answers (S : CipherSuite) (b : KeyBackup) (password keyName : String) :
    Action.Answers (b.backUpNamed S password keyName) (fun _ => b.Derives [password])
      (b.Blames [password]) := by
  refine .bind (blames_of_plain (Message.requireText_plain _ _)) fun _ _ => ?_
  refine .bind (blames_of_plain (Message.requireText_plain _ _)) fun _ _ => ?_
  refine .bind (blames_of_plain (Vault.loadKey_plain _).on) fun key _ => ?_
  refine .bind (derived_answers List.mem_cons_self) fun own hown => ?_
  refine .bind (blames_of_plain (lock_plain _ _)) fun ciphertext _ => .bind .get fun d _ => ?_
  refine (blames_of_plain (BackupLink.call_plain _).on).mono (fun _ _ => ?_) fun _ h => h
  exact List.forall_mem_singleton.2 hown

theorem restoreNamed_answers (S : CipherSuite) (b : KeyBackup) (password keyName : String) :
    Action.Answers (b.restoreNamed S password keyName) (fun _ => b.Derives [password])
      (b.Blames [password]) := by
  refine .bind (blames_of_plain (Message.requireText_plain _ _)) fun _ _ => ?_
  refine .bind (blames_of_plain (Message.requireText_plain _ _)) fun _ _ => ?_
  refine .bind (blames_of_plain (Vault.requireNoKey_plain _).on) fun _ _ => ?_
  refine .bind (derived_answers List.mem_cons_self) fun own hown => ?_
  refine .bind (blames_of_plain (fetch_plain _)) fun entry _ => ?_
  refine .bind (blames_of_plain (unlock_plain _ _)) fun privateKey _ => ?_
  refine .bind (blames_of_plain (Action.plain_lift fun _ => Error.plain_of_mapError fun _ => rfl))
    fun key _ => ?_
  refine .bind (blames_of_plain (Vault.storeKey_plain _ _).on) fun _ _ => .pure ?_
  exact List.forall_mem_singleton.2 hown

/-- The old password is tried first, and the new one once the backup is open. -/
theorem changePassword_answers (S : CipherSuite) (b : KeyBackup) (old new : String) :
    Action.Answers (b.changePassword S old new) (fun _ => b.Derives [old, new])
      (b.Blames [old, new]) := by
  refine .bind (blames_of_plain (Message.requireText_plain _ _)) fun _ _ => ?_
  refine .bind (blames_of_plain (Message.requireText_plain _ _)) fun _ _ => ?_
  by_cases hsame : old = new
  · rw [if_pos hsame]
    refine .throw fun hderivation => ?_
    cases hderivation
  rw [if_neg hsame]
  refine .bind (derived_answers List.mem_cons_self) fun own hown => ?_
  refine .bind (blames_of_plain (fetch_plain _)) fun entry _ => ?_
  refine .bind (blames_of_plain (unlock_plain _ _)) fun privateKey _ => ?_
  refine .bind (derived_answers (List.mem_cons_of_mem _ List.mem_cons_self)) fun next hnext => ?_
  refine .bind (blames_of_plain (lock_plain _ _)) fun ciphertext _ => .bind .get fun d _ => ?_
  refine (blames_of_plain (BackupLink.call_plain _).on).mono (fun _ _ => ?_) fun _ h => h
  exact List.forall_mem_cons.2 ⟨hown, List.forall_mem_singleton.2 hnext⟩

theorem reset_answers (S : CipherSuite) (b : KeyBackup) (password? : Option String) :
    Action.Answers (b.reset S password?) (fun _ => b.Derives password?.toList)
      (b.Blames password?.toList) := by
  cases password? with
  | none =>
    refine .bind (blames_of_plain (BackupLink.call_plain _).on) fun _ _ => .pure ?_
    exact List.forall_mem_nil _
  | some password =>
    refine .bind (blames_of_plain (Message.requireText_plain _ _)) fun _ _ => ?_
    refine .bind (derived_answers List.mem_cons_self) fun own hown => ?_
    refine .bind (blames_of_plain (fetch_plain _)) fun entry _ => ?_
    refine .bind (blames_of_plain (unlock_plain _ _)) fun privateKey _ => ?_
    refine .bind (blames_of_plain (BackupLink.call_plain _).on) fun _ _ => .pure ?_
    exact List.forall_mem_singleton.2 hown

/-- An operation is done only if all the passwords that it is given become keys; and if it fails
because one does not, it is one of these. -/
theorem perform_answers (S : CipherSuite) (b : KeyBackup) (operation : BackupOperation) :
    Action.Answers (b.perform S operation) (fun _ => b.Derives operation.passwords)
      (b.Blames operation.passwords) := by
  cases operation with
  | backUp password keyName =>
    exact .bind (backUpNamed_answers S b password keyName) fun _ h => .pure h
  | restore password keyName =>
    refine Action.Answers.map ?_
    exact restoreNamed_answers S b password keyName
  | changePassword old new => exact .bind (changePassword_answers S b old new) fun _ h => .pure h
  | reset password? => exact .bind (reset_answers S b password?) fun _ h => .pure h
  | storeKey key =>
    refine .bind (blames_of_plain (Vault.storeKey_plain _ _).on) fun _ _ => .pure ?_
    exact List.forall_mem_nil _
  | deleteKey =>
    refine Action.Answers.map (.on fun v => ⟨fun _ _ => List.forall_mem_nil _, fun e he => ?_⟩)
    cases he

end KeyBackup

end EndToEnd
