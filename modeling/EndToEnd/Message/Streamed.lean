/-
  Messages that are too long to be held at once: streams for the holders of given keys and the sender.
  Nobody signs them. What was written before a failure stays in the sink.
-/
import EndToEnd.Message.Exchange
import EndToEnd.Stream.Seal

namespace EndToEnd

/-- A vault, and a sink that is written to. -/
structure StreamDesk where
  vault : Vault
  sink : Stream.Sink

namespace StreamDesk

/-- An action on the vault. -/
def inVault {α : Type} (x : Action Vault α) : Action StreamDesk α :=
  Action.on StreamDesk.vault (fun d vault => { d with vault }) x

/-- Refuses a stream that held nothing. -/
def requireInput (total : Nat) : Except Error Nat :=
  if total = 0 then .error (.emptyArgument "input") else .ok total

/-- Seals what a source has, from an identity for others, and says how much that was. -/
def encrypt (S : CipherSuite) (identity : String) (source : Stream.Source)
    (others : Option (List PublicKey)) : Action StreamDesk Nat := do
  let key ← inVault (Vault.loadKey S identity)
  let readers ← Action.lift (Message.recipients (key.publicKey S) others)
  let total ← fun d =>
    let (r, p) := Stream.encrypt S readers ⟨source, d.sink, d.vault.tape⟩
    (r.mapError .crypto, { d with sink := p.sink, vault.tape := p.tape })
  Action.lift (requireInput total)

/-- Opens the sealed stream that a source has and says how much data it held. -/
def decrypt (S : CipherSuite) (identity : String) (source : Stream.Source) :
    Action StreamDesk Nat := do
  let key ← inVault (Vault.loadKey S identity)
  let total ← fun d =>
    let (r, sink) := Stream.decrypt S key source d.sink
    (r.mapError Error.ofDecryption, { d with sink })
  Action.lift (requireInput total)

end StreamDesk

end EndToEnd
