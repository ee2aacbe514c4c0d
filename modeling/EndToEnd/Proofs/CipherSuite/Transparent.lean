/-
  A suite that hides nothing and keeps every law that is asked of suites.

  Digests are remainders, a locked message is the message with a checksum, and public keys are the
  secrets themselves. It shows that the laws can hold together, and its operations are evaluated
  within moments.
-/
import EndToEnd.Proofs.CipherSuite

namespace EndToEnd.CipherSuite

/-- The remainder of the number that octets stand for, as a block. -/
def checksum (n : Nat) (o : Octets) : Block n := .littleEndian n (ofLittleEndian o % (2 ^ 255 - 19))

/-- The message in front of its checksum, if that is right. -/
def transparentUnlock (key : Block 32) (nonce : Block 12) (associated sealed : Octets) :
    Option Octets :=
  let message := sealed.take (sealed.length - 16)
  if (checksum 16 (key.octets ++ nonce.octets ++ associated ++ message)).octets =
      sealed.drop (sealed.length - 16) then some message
  else none

/-- The suite that hides nothing. -/
def transparent : CipherSuite where
  sha256 o := checksum 32 o
  sha512 o := checksum 64 o
  expand salt secret purpose := checksum 32 (salt ++ secret ++ purpose)
  stretch _ password salt := .ok (checksum 32 (password ++ salt))
  lock key nonce associated message :=
    some (message ++ (checksum 16 (key.octets ++ nonce.octets ++ associated ++ message)).octets)
  unlock := transparentUnlock
  agreePublic secret := secret
  agree secret theirs :=
    .littleEndian 32 (ofLittleEndian secret.octets + ofLittleEndian theirs.octets)
  signPublic secret := secret
  sign secret message := checksum 64 (secret.octets ++ message)
  isSigningKey _ := true
  verify key message signature := signature = checksum 64 (key.octets ++ message)

theorem transparent_agrees : transparent.Agrees := by
  intro a b
  show Block.littleEndian 32 _ = Block.littleEndian 32 _
  rw [Nat.add_comm]
  rfl

theorem transparent_tags : transparent.Tags := by
  intro key nonce associated message sealed h
  cases h
  rw [List.length_append, Block.length_octets]

theorem transparent_trims : transparent.Trims := by
  intro key nonce associated sealed message h
  change transparentUnlock key nonce associated sealed = some message at h
  unfold transparentUnlock at h
  dsimp only at h
  split at h
  · rename_i htag
    have hlen := congrArg List.length htag
    rw [Block.length_octets, List.length_drop] at hlen
    cases h
    rw [List.length_take]
    omega
  · cases h

theorem transparent_locks (associated : Octets) (length : Nat) :
    transparent.Locks associated length := fun _ _ _ _ => ⟨_, rfl⟩

theorem transparent_opens : transparent.Opens := by
  intro key nonce associated message sealed h
  cases h
  show transparentUnlock _ _ _ _ = _
  unfold transparentUnlock
  dsimp only
  rw [List.length_append, Block.length_octets, Nat.add_sub_cancel, List.take_left, List.drop_left,
    if_pos rfl]

theorem transparent_accepts : transparent.Accepts := by
  intro secret message
  exact ⟨rfl, decide_eq_true rfl⟩

end EndToEnd.CipherSuite
