/-
  What else is relied on of the cipher: that what it locks becomes longer by a tag of 16 octets, and what
  it opens shorter by one.
-/
import EndToEnd.CipherSuite.Standard

namespace EndToEnd.CipherSuite

/-- What was locked is as long as the message and its tag. -/
def Tags (S : CipherSuite) : Prop :=
  ∀ key nonce associated message sealed,
    S.lock key nonce associated message = some sealed → sealed.length = message.length + 16

theorem standard_tags : standard.Tags := by
  intro key nonce associated message sealed h
  change Gcm.encrypt key nonce associated message = some sealed at h
  unfold Gcm.encrypt at h
  split at h
  · cases h
  · cases h
    rw [List.length_append, Gcm.length_authTag, Gcm.length_combine (Gcm.length_keyStream ..)]
    rfl

/-- What opens is as long as its message and a tag, whoever locked it. -/
def Trims (S : CipherSuite) : Prop :=
  ∀ key nonce associated sealed message,
    S.unlock key nonce associated sealed = some message → sealed.length = message.length + 16

theorem standard_trims : standard.Trims := by
  intro key nonce associated sealed message h
  change Gcm.decrypt key nonce associated sealed = some message at h
  unfold Gcm.decrypt at h
  dsimp only at h
  have htag : Gcm.tagLength = 16 := rfl
  split at h
  · cases h
  split at h
  · cases h
    rw [Gcm.length_combine (Gcm.length_keyStream ..), List.length_take]
    omega
  · cases h

/-- Messages of a length are locked together with the given octets, under any key. -/
def Locks (S : CipherSuite) (associated : Octets) (length : Nat) : Prop :=
  ∀ key nonce message, message.length = length →
    ∃ sealed, S.lock key nonce associated message = some sealed

/-- The standard suite refuses nothing that is within its limits. -/
theorem standard_locks {associated : Octets} {length : Nat} (ha : associated.length ≤ Gcm.maxLength)
    (hl : length ≤ Gcm.maxLength) : standard.Locks associated length := by
  rintro key nonce message rfl
  show ∃ sealed, Gcm.encrypt key nonce associated message = some sealed
  unfold Gcm.encrypt
  rw [if_neg (by omega)]
  exact ⟨_, rfl⟩

/-- Messages of up to `n` octets are locked together with up to as many. -/
def LocksUpTo (S : CipherSuite) (n : Nat) : Prop :=
  ∀ associated length, associated.length ≤ n → length ≤ n → S.Locks associated length

theorem standard_locksUpTo : standard.LocksUpTo Gcm.maxLength := fun _ _ => standard_locks

end EndToEnd.CipherSuite
