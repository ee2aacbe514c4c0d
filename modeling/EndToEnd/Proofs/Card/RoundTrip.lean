/-
  A new card comes back from every form that it is given.

  What is signed of a card is a JSON text; a card is handed on as a JSON text around the Base64 text of
  those octets; and the cache keeps that outer text in the card's row. The id and the signature are both
  over the inner octets, so each form has to give them back one by one, whatever characters stand in the
  identity or in the id of the card that is replaced.

  Proved:
  * `RawCard.generate_of_not_blank`: a card is made for every identity that is not blank.
  * `Card.ofRaw_of_generate`: what was made is accepted as a card, and says what it was made with.
  * `CardCache.get_stored`: a genuine card that is stored alone is read back by its id.
  * `Card.comesBack`: all of these on the way of one card, for every key, identity, id and time.
-/
import EndToEnd.Proofs.Card.Parse
import EndToEnd.Proofs.Card.Resolve
import EndToEnd.Proofs.CipherSuite.Transparent

namespace EndToEnd

variable {S : CipherSuite} {key : KeyPair} {identity : String} {previousId : Option String}
  {createdAt : Timestamp} {raw : RawCard} {c : Card}

/-- A card is made for every identity that is not blank. -/
theorem RawCard.generate_of_not_blank (S : CipherSuite) (key : KeyPair) (previousId : Option String)
    (createdAt : Timestamp) (hb : Text.isBlank identity = false) :
    ∃ raw, generate S key identity previousId createdAt = .ok raw := by
  unfold generate
  rw [hb]
  exact ⟨_, rfl⟩

/-- What was made is accepted as a card that says what it was made with. -/
theorem Card.ofRaw_of_generate (ha : S.Accepts)
    (h : RawCard.generate S key identity previousId createdAt = .ok raw) :
    ∃ c, ofRaw S raw = .ok c ∧ c.MadeFor S key identity previousId createdAt := by
  obtain ⟨-, hsnapshot, hsignature⟩ := generate_ok h
  have hread : (Json.read? raw.snapshot).bind CardContent.ofJson? = some
      ⟨CardContent.currentVersion, identity, key.publicKey S, createdAt, previousId⟩ := by
    rw [hsnapshot, read_snapshot]
  have hverify : (key.publicKey S).verify S raw.snapshot raw.signature = .ok () := by
    rw [hsignature, PublicKey.verify_sign ha]
  have haccepted := ofRaw_of_valid hread hverify
  exact ⟨_, haccepted, madeFor_of_generate h haccepted⟩

namespace CardCache

/-- The only card of a cache has its own row there. A card that names itself is no exception: nothing
is cached yet when its predecessor is looked up. -/
theorem store_empty (policy : DuplicatePolicy) (c : Card) :
    store c (empty policy) =
      (.ok (), { empty policy with rows := Table.empty.insert (CardRow.ofCard c) }) := by
  have hnone : CardRows.predecessor? Table.empty c = none := by
    unfold CardRows.predecessor?
    cases c.previousId <;> rfl
  have htaken : CardRows.refusal (empty policy).rows c = none := by
    refine CardRows.refusal_eq_none.2 fun p hp => ?_
    rw [show (empty policy).rows = Table.empty from rfl, hnone] at hp
    cases hp
  have hmark : CardRows.mark Table.empty c = c.outdated := by
    rw [CardRows.mark, show CardRows.names Table.empty c = false from rfl,
      show Table.find? c.id (Table.empty : CardRows) = none from rfl]
    simp
  rw [store_of_not_refused (reliable_empty policy) htaken]
  show (_, { empty policy with rows := CardRows.adopt Table.empty c }) = _
  rw [CardRows.adopt, CardRows.outdatePredecessor, hnone, hmark]

/-- A genuine card that is stored alone is read back by its id, with nothing behind it. -/
theorem get_stored (policy : DuplicatePolicy) (hc : c.Genuine S) :
    ∃ k, store c (empty policy) = (.ok (), k) ∧ get S c.id k = (.ok (some (.single c)), k) := by
  obtain ⟨rows, hrows⟩ : ∃ rows : CardRows, Table.empty.insert (CardRow.ofCard c) = rows := ⟨_, rfl⟩
  have hfind (id : String) :
      rows.find? id = if c.id = id then some (CardRow.ofCard c) else none := by
    rw [← hrows, Table.find?_insert]
    rfl
  have hread : rows.Reads S c :=
    ⟨CardRow.ofCard c, (hfind c.id).trans (if_pos rfl), CardRow.toCard_ofCard hc, rfl⟩
  have hends : rows.Ends S [c.id] c := by
    cases hp : c.previousId with
    | none => exact .first hp
    | some id =>
      by_cases hself : c.id = id
      · exact .repeated id hp (List.mem_singleton.2 hself.symm)
      · exact .missing id hp ((hfind id).trans (if_neg hself))
  refine ⟨_, (store_empty policy c).trans (by rw [hrows]), ?_⟩
  exact get_of_walks ((reliable_empty policy).withRows rows) hread (.stop hends)

end CardCache

namespace Card

/-- The way of a card: it is made, read back from its JSON text, accepted, and read back from a cache. -/
structure ComesBack (S : CipherSuite) (key : KeyPair) (identity : String)
    (previousId : Option String) (createdAt : Timestamp) (policy : DuplicatePolicy) (raw : RawCard)
    (c : Card) (k : CardCache) : Prop where
  made : RawCard.generate S key identity previousId createdAt = .ok raw
  parsed : RawCard.ofJsonText raw.toJson.render = .ok raw
  accepted : ofRaw S raw = .ok c
  madeFor : c.MadeFor S key identity previousId createdAt
  id : c.id = Hex.text ((S.sha512 raw.snapshot).octets.take 32)
  stored : CardCache.store c (.empty policy) = (.ok (), k)
  got : CardCache.get S c.id k = (.ok (some (.single c)), k)

/-- Every key makes a card for every identity that is not blank, in place of any card or of none, at
any time; and it comes back unchanged from its JSON text and from an empty cache. -/
theorem comesBack (ha : S.Accepts) (key : KeyPair) (hb : Text.isBlank identity = false)
    (previousId : Option String) (createdAt : Timestamp) (policy : DuplicatePolicy) :
    ∃ raw c k, ComesBack S key identity previousId createdAt policy raw c k := by
  obtain ⟨raw, hmade⟩ := RawCard.generate_of_not_blank S key previousId createdAt hb
  obtain ⟨c, haccepted, hmadeFor⟩ := ofRaw_of_generate ha hmade
  obtain ⟨_, -, -, hcard⟩ := ofRaw_eq_ok haccepted
  obtain ⟨k, hstored, hgot⟩ := CardCache.get_stored policy hmadeFor.genuine
  exact ⟨raw, c, k, hmade, RawCard.ofJsonText_render raw, haccepted, hmadeFor, by rw [hcard]; rfl, hstored,
    hgot⟩

/-- An identity with all that is written in a special way, a predecessor with an empty id, and the
earliest time. -/
theorem comesBack_escaped :
    Text.isBlank "\"\\\n\u0001 𝄞" = false ∧ ∃ raw c k,
      ComesBack .transparent ⟨.zero 32, .zero 32⟩ "\"\\\n\u0001 𝄞" (some "") Int64.minValue .reject
        raw c k :=
  have hb : Text.isBlank "\"\\\n\u0001 𝄞" = false := by decide
  ⟨hb, comesBack CipherSuite.transparent_accepts _ hb (some "") Int64.minValue .reject⟩

end Card

end EndToEnd
