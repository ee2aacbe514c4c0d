/-
  Keys are read back from their written forms, and a key pair's signatures fit its public key.
-/
import EndToEnd.Key
import EndToEnd.Proofs.Json.RoundTrip

namespace EndToEnd

theorem hexBlock?_hex {n : Nat} (b : Block n) : hexBlock? n b.hex = some b := by
  unfold hexBlock? Block.hex Hex.text
  rw [String.toList_ofList, Hex.decode_encode]
  simp

theorem PublicKey.ofJson?_toJson (k : PublicKey) : PublicKey.ofJson? k.toJson = some k := by
  simp [PublicKey.ofJson?, PublicKey.toJson, Json.fields?, Json.member?, Json.required, Json.text?,
    hexBlock?_hex]

theorem Signature.ofJson?_toJson (s : Signature) : Signature.ofJson? s.toJson = some s := by
  simp [Signature.ofJson?, Signature.toJson, Json.text?, hexBlock?_hex]

/-- A key pair's signature fits its public key, where signatures are accepted. -/
theorem PublicKey.verify_sign {S : CipherSuite} (ha : S.Accepts) (key : KeyPair)
    (message : Octets) : (key.publicKey S).verify S message (key.sign S message) = .ok () := by
  obtain ⟨hpoint, hverify⟩ := ha key.signing message
  have hkey : (key.publicKey S).checkSigning S = .ok () := if_pos hpoint
  unfold PublicKey.verify
  rw [hkey]
  exact if_pos hverify

/-- No two of the keys share a key id. -/
def PublicKey.DistinctIds (S : CipherSuite) (keys : List PublicKey) : Prop :=
  ∀ k ∈ keys, ∀ l ∈ keys, k.keyId S = l.keyId S → k = l

instance (S : CipherSuite) : DecidablePred (PublicKey.DistinctIds S) := fun keys =>
  inferInstanceAs (Decidable (∀ k ∈ keys, ∀ l ∈ keys, k.keyId S = l.keyId S → k = l))

theorem PublicKey.distinctIds_singleton (S : CipherSuite) (key : PublicKey) :
    PublicKey.DistinctIds S [key] := by
  intro k hk l hl _
  rw [List.mem_singleton.1 hk, List.mem_singleton.1 hl]

end EndToEnd
