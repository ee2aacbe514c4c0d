/-
  Genuine cards: cards that say what their signed octets say.

  Only the mark of a replaced card is not among the signed octets, so genuine cards with one snapshot
  differ in nothing else but their signatures.
-/
import EndToEnd.Card.Basic

namespace EndToEnd

namespace Card

variable {S : CipherSuite}

/-- Apart from its mark, the card is what its raw card says, and that is rightly signed. -/
def Genuine (S : CipherSuite) (c : Card) : Prop := ofRaw S c.raw = .ok { c with outdated := false }

/-- What a raw card says is found in it, and it is signed with the key that it names. -/
theorem ofRaw_eq_ok {raw : RawCard} {c : Card} (h : ofRaw S raw = .ok c) :
    ∃ s, (Json.read? raw.snapshot).bind CardContent.ofJson? = some s ∧
      s.publicKey.verify S raw.snapshot raw.signature = .ok () ∧
      c = ⟨idOf S raw.snapshot, s.identity, s.publicKey, s.createdAt, false, s.previousId, raw⟩ := by
  unfold ofRaw at h
  split at h
  · cases h
  · rename_i s hs
    split at h
    · cases h
    · rename_i hv
      cases h
      exact ⟨s, hs, hv, rfl⟩

/-- A content that is signed with the key that it names is read as a card. -/
theorem ofRaw_of_valid {raw : RawCard} {s : CardContent}
    (hs : (Json.read? raw.snapshot).bind CardContent.ofJson? = some s)
    (hv : s.publicKey.verify S raw.snapshot raw.signature = .ok ()) :
    ofRaw S raw = .ok
      ⟨idOf S raw.snapshot, s.identity, s.publicKey, s.createdAt, false, s.previousId, raw⟩ := by
  unfold ofRaw
  rw [hs]
  dsimp only
  rw [hv]

/-- A card that was read is genuine and not marked. -/
theorem genuine_of_ofRaw {raw : RawCard} {c : Card} (h : ofRaw S raw = .ok c) :
    c.Genuine S ∧ c.outdated = false ∧ c.raw = raw := by
  obtain ⟨s, hs, hv, rfl⟩ := ofRaw_eq_ok h
  exact ⟨h, rfl, rfl⟩

/-- The card with another mark. -/
def marked (c : Card) (b : Bool) : Card := { c with outdated := b }

@[simp] theorem marked_id (c : Card) (b : Bool) : (c.marked b).id = c.id := rfl
@[simp] theorem marked_identity (c : Card) (b : Bool) : (c.marked b).identity = c.identity := rfl
@[simp] theorem marked_createdAt (c : Card) (b : Bool) : (c.marked b).createdAt = c.createdAt := rfl
@[simp] theorem marked_outdated (c : Card) (b : Bool) : (c.marked b).outdated = b := rfl
@[simp] theorem marked_previousId (c : Card) (b : Bool) :
    (c.marked b).previousId = c.previousId := rfl
@[simp] theorem marked_marked (c : Card) (a b : Bool) : (c.marked a).marked b = c.marked b := rfl
@[simp] theorem marked_self (c : Card) : c.marked c.outdated = c := rfl

theorem Genuine.marked {c : Card} (h : c.Genuine S) (b : Bool) : (c.marked b).Genuine S := h

/-- Cards that say the same: only their marks and their raw cards may differ. -/
structure Alike (c d : Card) : Prop where
  identity : c.identity = d.identity
  publicKey : c.publicKey = d.publicKey
  createdAt : c.createdAt = d.createdAt
  previousId : c.previousId = d.previousId

theorem Genuine.alike {c d : Card} (hc : c.Genuine S) (hd : d.Genuine S)
    (h : c.raw.snapshot = d.raw.snapshot) : c.Alike d := by
  obtain ⟨s, hs, _, ec⟩ := ofRaw_eq_ok hc
  obtain ⟨t, ht, _, ed⟩ := ofRaw_eq_ok hd
  obtain rfl : s = t := by
    rw [h, ht] at hs
    exact (Option.some.inj hs).symm
  injection ec with _ i1 k1 t1 _ p1 _
  injection ed with _ i2 k2 t2 _ p2 _
  exact ⟨i1.trans i2.symm, k1.trans k2.symm, t1.trans t2.symm, p1.trans p2.symm⟩

end Card

end EndToEnd
