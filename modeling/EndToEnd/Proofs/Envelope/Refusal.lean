/-
  Sealing for somebody fails only where the cipher refuses to lock.

  `Settles` says it of one computation: it answers, or it ends in `refusal` because the cipher does
  not lock what it was asked to. Each way to build a computation keeps it, and so it holds of both
  modes. What they ask the cipher for is said by the length of the message and the octets that are
  locked in with it.
-/
import EndToEnd.Proofs.CipherSuite
import EndToEnd.Proofs.Envelope.Wrap

namespace EndToEnd.Envelope

/-- The error of a cipher that does not lock. -/
def refusal : CryptoError := .encryption "Encryption failed: aead::Error"

/-- The computation answers, or it fails since the cipher does not lock something that `asks` names:
a message of a length together with octets. -/
def Settles {α : Type} (S : CipherSuite) (asks : Octets → Nat → Prop) (x : Sealing α) : Prop :=
  ∀ tape, (∃ a tape', x tape = (.ok a, tape')) ∨
    ∃ tape' associated length, x tape = (.error refusal, tape') ∧ asks associated length ∧
      ¬ S.Locks associated length

namespace Settles

variable {S : CipherSuite} {asks : Octets → Nat → Prop} {α β : Type}

theorem pure (a : α) : Settles S asks (pure a) := fun tape => .inl ⟨a, tape, rfl⟩

theorem draw (x : Draw α) : Settles S asks (liftM x) :=
  fun tape => .inl ⟨_, _, Action.draw_run x tape⟩

theorem bind {x : Sealing α} {f : α → Sealing β} (hx : Settles S asks x)
    (hf : ∀ a tape tape', x tape = (.ok a, tape') → Settles S asks (f a)) :
    Settles S asks (x >>= f) := by
  intro tape
  rcases hx tape with ⟨a, t, hrun⟩ | ⟨t, associated, length, hrun, hasked⟩
  · rw [Action.bind_ok hrun]
    exact hf a tape t hrun t
  · exact .inr ⟨t, associated, length, Action.bind_error hrun, hasked⟩

theorem lockFresh {message associated : Octets} (key : Block 32)
    (h : asks associated message.length) : Settles S asks (lockFresh S key message associated) := by
  intro tape
  rw [lockFresh_run]
  cases hl : S.lock key (tape.block 12) associated message with
  | some sealed => exact .inl ⟨_, _, rfl⟩
  | none =>
    refine .inr ⟨_, associated, message.length, rfl, h, fun hlocks => ?_⟩
    obtain ⟨sealed, hsealed⟩ := hlocks key (tape.block 12) message rfl
    rw [hl] at hsealed
    cases hsealed

/-- Content keys are locked together with the key id of the recipient. -/
theorem wrapAll (hwrap : ∀ id : KeyId, asks id.octets 32) (content secret : Block 32)
    (rs : List (KeyId × PublicKey)) : Settles S asks (wrapAll S content secret rs) := by
  induction rs with
  | nil => exact pure []
  | cons r rs ih =>
    have hlock : asks r.1.octets content.octets.length := by
      rw [Block.length_octets]
      exact hwrap r.1
    have hslot : Settles S asks (wrapFor S content secret r) :=
      bind (lockFresh _ hlock) fun _ _ _ _ => pure _
    exact bind hslot fun _ _ _ _ => bind ih fun _ _ _ _ => pure _

theorem prepare (hwrap : ∀ id : KeyId, asks id.octets 32) (mode : Mode) (recipients : List PublicKey) :
    Settles S asks (prepare S mode recipients) :=
  bind (draw _) fun _ _ _ _ => bind (draw _) fun _ _ _ _ =>
    bind (wrapAll hwrap _ _ _) fun _ _ _ _ => pure _

theorem enclose {header : Header} {body : Octets} (content : Block 32)
    (h : asks header.encode body.length) : Settles S asks (enclose S header content body) :=
  bind (lockFresh content h) fun _ _ _ _ => pure _

end Settles

theorem length_encodeBody (data : Octets) (signature : Signature) :
    (encodeBody data signature).length = data.length + 144 := by
  simp only [encodeBody, encodeSignature, encodeOctets, encodeLength, List.length_append,
    List.length_map, length_littleEndian, Hex.length_encode, Block.length_octets]
  omega

variable {S : CipherSuite} {asks : Octets → Nat → Prop} {recipients : List PublicKey}

/-- The body of an authenticated envelope is 144 octets longer than the data. -/
theorem settles_authEncrypt (hwrap : ∀ id : KeyId, asks id.octets 32) {data : Octets}
    (hbody : ∀ content secret header, Prepared S recipients .authenticated content secret header →
      header.recipientIds = (recipients.map (·.keyId S)).eraseDups →
      asks header.encode (data.length + 144))
    (hne : recipients ≠ []) (signer : KeyPair) :
    Settles S asks (authEncrypt S data signer recipients) := by
  unfold authEncrypt
  rw [if_neg (by simpa using hne)]
  refine .bind (.prepare hwrap _ _) fun a tape tape' hprepare => ?_
  obtain ⟨secret, hp⟩ := prepare_ok hprepare
  have hasks := hbody a.1 secret a.2 hp (recipientIds_of_prepare hprepare)
  rw [← length_encodeBody data (signer.sign S (authenticatedDigest S a.2 data))] at hasks
  exact .enclose a.1 hasks

theorem settles_signThenEncrypt (hwrap : ∀ id : KeyId, asks id.octets 32) {data : Octets}
    (hbody : ∀ header : Header, asks header.encode data.length) (hne : recipients ≠ [])
    (signer : KeyPair) : Settles S asks (signThenEncrypt S data signer recipients) := by
  unfold signThenEncrypt
  rw [if_neg (by simpa using hne)]
  exact .bind (.prepare hwrap _ _) fun a _ _ _ => .enclose a.1 (hbody _)

end EndToEnd.Envelope
