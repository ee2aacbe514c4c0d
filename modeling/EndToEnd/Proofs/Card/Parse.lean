/-
  Cards are read back from what is written of them.

  A content comes back from its JSON form, a raw card from its JSON text, and the cache's row of a
  genuine card gives that card. A card made for a key says what it was made with.
-/
import EndToEnd.Card.Cache
import EndToEnd.Proofs.Card.Genuine
import EndToEnd.Proofs.Card.Store
import EndToEnd.Proofs.Key

namespace EndToEnd

theorem Json.int64?_toInt (t : Int64) : Json.int64? (.int t.toInt) = some t := by
  unfold Json.int64?
  have hlo := t.le_toInt
  have hhi := t.toInt_lt
  dsimp only
  rw [if_pos ⟨hlo, hhi⟩, Int64.ofInt_toInt]

namespace CardContent

/-- A content is read back from its JSON form. -/
theorem ofJson?_toJson (c : CardContent) : ofJson? c.toJson = some c := by
  obtain ⟨version, identity, key, created, previous⟩ := c
  cases previous with
  | none =>
    simp [ofJson?, toJson, fieldNames, Json.fields?, Json.member?, Json.required, Json.text?,
      PublicKey.ofJson?_toJson, Json.int64?_toInt, Json.orDefault]
  | some id =>
    simp [ofJson?, toJson, fieldNames, Json.fields?, Json.member?, Json.required, Json.text?,
      PublicKey.ofJson?_toJson, Json.int64?_toInt, Json.orDefault, Json.optionalText?]

theorem clear_toJson (c : CardContent) : c.toJson.Clear := by
  obtain ⟨version, identity, key, created, previous⟩ := c
  cases previous <;>
    simp [toJson, PublicKey.toJson, Json.Clear, Json.ClearMembers]

end CardContent

namespace RawCard

theorem ofJson?_toJson (r : RawCard) : ofJson? r.toJson = some r := by
  have hb : Base64.decode? (Base64.text r.snapshot).toList = some r.snapshot := by
    rw [Base64.text, String.toList_ofList, Base64.decode?_encode]
  simp [ofJson?, toJson, Json.fields?, Json.member?, Json.required, Json.text?, hb,
    Signature.ofJson?_toJson]

/-- A raw card is read back from its JSON text. -/
theorem ofJsonText_render (r : RawCard) : ofJsonText r.toJson.render = .ok r := by
  have hclear : r.toJson.Clear := by
    simp [toJson, Signature.toJson, Json.Clear, Json.ClearMembers]
  unfold ofJsonText Json.ofText?
  rw [Json.read?_render hclear, Option.bind_some, ofJson?_toJson]

/-- A signed content is the snapshot that the signature is for. -/
theorem fields_of_sign {S : CipherSuite} {key : KeyPair} {content : Octets} {raw : RawCard}
    (h : sign S key content = raw) :
    raw.snapshot = content ∧ raw.signature = key.sign S raw.snapshot := by
  subst h
  exact ⟨rfl, rfl⟩

end RawCard

/-- The row of a genuine card gives the card. -/
theorem CardRow.toCard_ofCard {S : CipherSuite} {c : Card} (h : c.Genuine S) :
    (CardRow.ofCard c).toCard S = .ok c := by
  unfold CardRow.toCard CardRow.ofCard
  dsimp only
  have hread : Except.bind (.ok c.raw) (Card.ofRaw S) = .ok { c with outdated := false } := h
  rw [RawCard.ofJsonText_render, hread]
  exact if_pos rfl

namespace Card

variable {S : CipherSuite} {key : KeyPair} {identity : String} {previousId : Option String}
  {createdAt : Timestamp} {raw : RawCard}

/-- What a card that was made for a key says, once it is accepted. -/
structure MadeFor (S : CipherSuite) (key : KeyPair) (identity : String) (previousId : Option String)
    (createdAt : Timestamp) (c : Card) : Prop where
  identity : c.identity = identity
  publicKey : c.publicKey = key.publicKey S
  createdAt : c.createdAt = createdAt
  previousId : c.previousId = previousId
  outdated : c.outdated = false
  genuine : c.Genuine S

theorem read_snapshot (c : CardContent) :
    (Json.read? (Utf8.encode c.toJson.render)).bind CardContent.ofJson? = some c := by
  rw [Json.read?_render c.clear_toJson, Option.bind_some, CardContent.ofJson?_toJson]

/-- A card is made only for an identity that is not blank, and its content is what is signed. -/
theorem generate_ok (h : RawCard.generate S key identity previousId createdAt = .ok raw) :
    Text.isBlank identity = false ∧
      raw.snapshot = Utf8.encode (CardContent.toJson
        ⟨CardContent.currentVersion, identity, key.publicKey S, createdAt, previousId⟩).render ∧
      raw.signature = key.sign S raw.snapshot := by
  unfold RawCard.generate at h
  split at h
  · cases h
  · rename_i hb
    obtain ⟨hsnapshot, hsignature⟩ := RawCard.fields_of_sign (Except.ok.inj h)
    exact ⟨by simpa using hb, hsnapshot, hsignature⟩

/-- A made card that is accepted says what it was made with. -/
theorem madeFor_of_generate (h : RawCard.generate S key identity previousId createdAt = .ok raw)
    {c : Card} (hc : ofRaw S raw = .ok c) : MadeFor S key identity previousId createdAt c := by
  obtain ⟨hgenuine, houtdated, -⟩ := genuine_of_ofRaw hc
  obtain ⟨-, hsnapshot, -⟩ := generate_ok h
  obtain ⟨s, hs, -, hcard⟩ := ofRaw_eq_ok hc
  rw [hsnapshot, read_snapshot] at hs
  obtain rfl := Option.some.inj hs
  exact ⟨by rw [hcard], by rw [hcard], by rw [hcard], by rw [hcard], houtdated, hgenuine⟩

/-- The card with a content, signed with a key. -/
def signed (S : CipherSuite) (key : KeyPair) (content : CardContent) : Card :=
  let snapshot := Utf8.encode content.toJson.render
  ⟨idOf S snapshot, content.identity, content.publicKey, content.createdAt, false, content.previousId,
    RawCard.sign S key snapshot⟩

/-- A card that is signed with the key that it names is genuine, where signatures are accepted. -/
theorem genuine_signed (ha : S.Accepts) {content : CardContent}
    (hkey : content.publicKey = key.publicKey S) : (signed S key content).Genuine S := by
  obtain ⟨raw, hraw⟩ : ∃ raw, RawCard.sign S key (Utf8.encode content.toJson.render) = raw :=
    ⟨_, rfl⟩
  obtain ⟨hsnapshot, hsignature⟩ := RawCard.fields_of_sign hraw
  have hread : ofRaw S raw = .ok ⟨idOf S raw.snapshot, content.identity, content.publicKey,
      content.createdAt, false, content.previousId, raw⟩ := by
    apply ofRaw_of_valid
    · rw [hsnapshot, read_snapshot]
    · rw [hsignature, hkey, PublicKey.verify_sign ha]
  unfold Genuine signed
  dsimp only
  rw [hraw, hread, hsnapshot]

end Card

end EndToEnd
