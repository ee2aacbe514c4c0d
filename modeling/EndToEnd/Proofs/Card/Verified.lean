/-
  What is read from a cache is verified, whatever its rows hold.

  A row keeps some of what was signed a second time, in columns of its own, by which rows are selected
  and chosen. A card is read from the signed part alone, and its id is compared with the row's. So
  altered columns change which card is answered, but never what a card says. The identity of the row is
  compared with nothing: a row that stands under another identity than its card answers for that one.

  Proved:
  * `CardRows.Resolves.verified`: all cards of a chain that was read are verified.
  * `CardCache.searchFrom_answers`: each card that is found is that of a current row under an identity
    that was asked for.
  * `CardCache.verified_of_read`: reading gives verified cards only, and a card that is found is the
    identity's own exactly where its row stands under the identity that was signed.
-/
import EndToEnd.Proofs.Card.Recall

namespace EndToEnd

variable {S : CipherSuite}

namespace Card

/-- The card says what its snapshot says, the snapshot is signed with the key that stands in it, and the
card's id is the digest of the snapshot. -/
structure Verified (S : CipherSuite) (c : Card) : Prop where
  content : ∃ s, (Json.read? c.raw.snapshot).bind CardContent.ofJson? = some s ∧
    c.identity = s.identity ∧ c.publicKey = s.publicKey ∧ c.createdAt = s.createdAt ∧
    c.previousId = s.previousId
  signed : c.publicKey.verify S c.raw.snapshot c.raw.signature = .ok ()
  addressed : c.id = idOf S c.raw.snapshot

theorem Genuine.verified {c : Card} (h : c.Genuine S) : c.Verified S := by
  obtain ⟨s, hs, hv, hcard⟩ := ofRaw_eq_ok h
  injection hcard with hid hidentity hkey htime _ hprevious _
  refine ⟨⟨s, hs, hidentity, hkey, htime, hprevious⟩, ?_, hid⟩
  rw [hkey]
  exact hv

end Card

namespace CardRow

/-- The card that was signed, without the mark of the row. -/
def signed? (S : CipherSuite) (r : CardRow) : Except Error Card :=
  (RawCard.ofJsonText r.raw).bind (Card.ofRaw S)

/-- The row stands under the identity that was signed. -/
def Honest (S : CipherSuite) (r : CardRow) : Prop :=
  ∀ c, r.signed? S = .ok c → c.identity = r.identity

/-- Ids, marks and what was signed decide which cards are read; the other columns do not. -/
theorem toCard_congr {r q : CardRow} (hid : r.id = q.id) (hmark : r.outdated = q.outdated)
    (hraw : r.raw = q.raw) : r.toCard S = q.toCard S := by
  unfold toCard
  rw [hid, hmark, hraw]

/-- Apart from its mark, the card of a row is what was signed. -/
theorem signed?_of_toCard {r : CardRow} {c : Card} (h : r.toCard S = .ok c) :
    r.signed? S = .ok (c.marked false) := by
  unfold toCard at h
  unfold signed?
  cases hread : (RawCard.ofJsonText r.raw).bind (Card.ofRaw S) with
  | error e =>
    rw [hread] at h
    cases h
  | ok d =>
    rw [hread] at h
    dsimp only at h
    split at h
    · obtain ⟨raw, -, hraw⟩ := Action.of_except_bind_ok hread
      obtain ⟨-, hcurrent, -⟩ := Card.genuine_of_ofRaw hraw
      rw [← Except.ok.inj h]
      change Except.ok d = Except.ok (d.marked false)
      rw [← hcurrent, Card.marked_self]
    · cases h

theorem genuine_of_toCard {r : CardRow} {c : Card} (h : r.toCard S = .ok c) : c.Genuine S := by
  obtain ⟨raw, -, hraw⟩ := Action.of_except_bind_ok (signed?_of_toCard h)
  exact (Card.genuine_of_ofRaw hraw).1

/-- The card of a row belongs to the identity of the row exactly if that is the signed one. -/
theorem honest_iff {r : CardRow} {c : Card} (h : r.toCard S = .ok c) :
    r.Honest S ↔ c.identity = r.identity := by
  have hsigned := signed?_of_toCard h
  constructor
  · intro hhonest
    have howned := hhonest _ hsigned
    exact howned
  · intro howned d hd
    rw [hsigned] at hd
    rw [← Except.ok.inj hd]
    exact howned

end CardRow

namespace CardRows

variable {t : CardRows}

theorem Reads.genuine {c : Card} (h : t.Reads S c) : c.Genuine S := by
  obtain ⟨r, -, hcard, -⟩ := h
  exact CardRow.genuine_of_toCard hcard

theorem Resolves.verified {chain : CardChain} (h : t.Resolves S chain) :
    ∀ c ∈ chain.cards, c.Verified S := fun c hc => (h.read c hc).genuine.verified

/-- The head of a chain belongs to the identity of its row exactly if that is the signed one. -/
theorem Resolves.honest_iff {chain : CardChain} (h : t.Resolves S chain) {r : CardRow}
    (hr : r ∈ t.rows) (hid : r.id = chain.head.id) :
    r.Honest S ↔ chain.head.identity = r.identity := by
  obtain ⟨q, hq, hcard, -⟩ := h.read chain.head List.mem_cons_self
  rw [← hid, Table.find?_key hr] at hq
  rw [← Option.some.inj hq] at hcard
  exact CardRow.honest_iff hcard

end CardRows

namespace CardCache

/-- The chain answers for the identity: its head is the card of a current row that stands under it. -/
def Answers (k : CardCache) (identity : String) (chain : CardChain) : Prop :=
  ∃ r ∈ k.rows.standing identity, r.id = chain.head.id

/-- What a search finds answers for identities that were asked for and not seen before, each of them
taken once and in order. -/
theorem searchFrom_answers {k k' : CardCache} {seen identities : List String}
    {chains : List CardChain} (h : searchFrom S seen identities k = (.ok chains, k')) :
    ∃ asked : List String, asked.Sublist identities ∧ asked.Nodup ∧ (∀ i ∈ asked, i ∉ seen) ∧
      asked.length = chains.length ∧ ∀ p ∈ asked.zip chains, k.Answers p.1 p.2 := by
  induction identities generalizing seen chains k with
  | nil =>
    cases h
    exact ⟨[], List.nil_sublist _, List.nodup_nil, nofun, rfl, nofun⟩
  | cons identity identities ih =>
    rw [searchFrom] at h
    by_cases hseen : identity ∈ seen
    · rw [if_pos hseen] at h
      obtain ⟨asked, hsub, hrest⟩ := ih h
      exact ⟨asked, hsub.cons _, hrest⟩
    rw [if_neg hseen] at h
    obtain ⟨found, u, hcurrent, h⟩ := Action.of_bind_ok h
    obtain ⟨others, v, hothers, h⟩ := Action.of_bind_ok h
    cases h
    obtain ⟨hu, hfound⟩ := current_ok hcurrent
    obtain ⟨asked, hsub, hnodup, hunseen, hlength, hanswers⟩ := ih hothers
    have hbehind : ∀ p ∈ asked.zip others, k.Answers p.1 p.2 := by
      intro p hp
      unfold Answers
      rw [← hu]
      exact hanswers p hp
    cases found with
    | none =>
      exact ⟨asked, hsub.cons _, hnodup, fun i hi hmem => hunseen i hi (List.mem_cons_of_mem _ hmem),
        hlength, hbehind⟩
    | some chain =>
      refine ⟨identity :: asked, hsub.cons_cons _, ?_, ?_, congrArg (· + 1) hlength, ?_⟩
      · exact List.nodup_cons.2 ⟨fun hmem => hunseen _ hmem List.mem_cons_self, hnodup⟩
      · intro i hi hmem
        rcases List.mem_cons.1 hi with rfl | hi
        · exact hseen hmem
        · exact hunseen i hi (List.mem_cons_of_mem _ hmem)
      · intro p hp
        rcases List.mem_cons.1 hp with rfl | hp
        · exact (hfound chain rfl).2
        · exact hbehind p hp

/-- Whatever the rows of a cache hold, in whichever columns they were altered, and whichever calls to
its table fail: all cards of the chains that are read are verified; a card that is got by its id has
that id; and a search gives, for some of the identities that were asked for and at most once for each,
the card of a current row that stands under it. That card is the identity's own exactly where its row
stands under the identity that was signed. -/
theorem verified_of_read (S : CipherSuite) (k k' : CardCache) :
    (∀ id chain, get S id k = (.ok (some chain), k') →
      chain.head.id = id ∧ ∀ c ∈ chain.cards, c.Verified S) ∧
    ∀ identities chains, search S identities k = (.ok chains, k') →
      (∀ chain ∈ chains, ∀ c ∈ chain.cards, c.Verified S) ∧
      ∃ asked : List String, asked.Sublist identities ∧ asked.Nodup ∧
        asked.length = chains.length ∧ ∀ p ∈ asked.zip chains, ∃ r ∈ k.rows.standing p.1,
          r.id = p.2.head.id ∧ (p.2.head.identity = p.1 ↔ r.Honest S) := by
  constructor
  · intro id chain hget
    obtain ⟨hresolves, hid⟩ := resolves_of_get hget
    exact ⟨hid, hresolves.verified⟩
  · intro identities chains hsearch
    have hresolves := resolves_of_search hsearch
    obtain ⟨asked, hsub, hnodup, -, hlength, hanswers⟩ := searchFrom_answers hsearch
    refine ⟨fun chain hchain => (hresolves chain hchain).verified, asked, hsub, hnodup, hlength,
      fun p hp => ?_⟩
    obtain ⟨r, hr, hid⟩ := hanswers p hp
    obtain ⟨hmem, howned, -⟩ := CardRows.mem_standing.1 hr
    have hhonest := (hresolves p.2 (List.of_mem_zip hp).2).honest_iff hmem hid
    rw [howned] at hhonest
    exact ⟨r, hr, hid, hhonest.symm⟩

/-! ## Rows with altered columns -/

/-- A cache whose only row is current and holds a card without a predecessor finds that card for the
identity under which the row stands. -/
theorem search_only_row {k : CardCache} (hk : k.Reliable) {r : CardRow} (hrows : k.rows.rows = [r])
    (hcurrent : r.outdated = false) {c : Card} (hcard : r.toCard S = .ok c)
    (hfirst : c.previousId = none) : search S [r.identity] k = (.ok [.single c], k) := by
  have hstanding : k.rows.standing r.identity = [r] := by
    refine List.perm_singleton.1 ?_
    rw [List.perm_ext_iff_of_nodup (k.rows.nodup_standing _) (List.pairwise_singleton _ _)]
    intro q
    rw [CardRows.mem_standing, hrows, List.mem_singleton]
    constructor
    · exact fun hq => hq.1
    · rintro rfl
      exact ⟨rfl, rfl, hcurrent⟩
  have hchoose : k.policy.choose (·.createdAt) r.identity (k.rows.standing r.identity) = .ok r := by
    rw [hstanding]
    rfl
  rw [search_singleton, current_of_choice hk hchoose,
    resolve_of_walks hk hcard (.stop (.first hfirst))]
  rfl

/-- The row of a card with other values in the columns that are not looked at when it is read. -/
def alteredRow (c : Card) (identity : String) (createdAt : Timestamp) (previousId : Option String) :
    CardRow :=
  { CardRow.ofCard c with identity, createdAt, previousId }

theorem toCard_alteredRow {c : Card} (h : c.Genuine S) (identity : String) (createdAt : Timestamp)
    (previousId : Option String) : (alteredRow c identity createdAt previousId).toCard S = .ok c := by
  have hsame : (alteredRow c identity createdAt previousId).toCard S = (CardRow.ofCard c).toCard S :=
    CardRow.toCard_congr rfl rfl rfl
  exact hsame.trans (CardRow.toCard_ofCard h)

/-- The columns for the time and for the predecessor were altered, that for the identity was not: the
card is found as it was signed. -/
theorem verified_of_altered_row :
    let c := CacheRun.cardOfAlice 1 none
    let k : CardCache :=
      { empty .reject with rows := Table.empty.insert (alteredRow c "alice" 9 (some "none")) }
    search .transparent ["alice"] k = (.ok [.single c], k) ∧ c.Verified .transparent ∧
      ∃ r ∈ k.rows.standing "alice", r.id = c.id ∧ (c.identity = "alice" ↔ r.Honest .transparent) := by
  intro c k
  have hsearch : search .transparent ["alice"] k = (.ok [.single c], k) :=
    search_only_row ((reliable_empty .reject).withRows _) rfl rfl
      (toCard_alteredRow (CacheRun.genuine_cardOfAlice 1 none) "alice" 9 (some "none")) rfl
  obtain ⟨hverified, asked, hsub, -, hlength, hanswers⟩ :=
    (verified_of_read .transparent k k).2 _ _ hsearch
  obtain ⟨identity, rfl⟩ := List.length_eq_one_iff.1 hlength
  obtain rfl := List.mem_singleton.1 (hsub.subset List.mem_cons_self)
  exact ⟨hsearch, hverified _ List.mem_cons_self c List.mem_cons_self,
    hanswers _ List.mem_cons_self⟩

/-- The column for the identity was altered: a card of one user is found for another one. -/
theorem card_of_other_identity_found :
    let c := CacheRun.cardOfAlice 1 none
    let k : CardCache := { empty .reject with rows := Table.empty.insert (alteredRow c "bob" 1 none) }
    search .transparent ["bob"] k = (.ok [.single c], k) ∧ c.identity ≠ "bob" := by
  intro c k
  refine ⟨?_, by decide⟩
  exact search_only_row ((reliable_empty .reject).withRows _) rfl rfl
    (toCard_alteredRow (CacheRun.genuine_cardOfAlice 1 none) "bob" 1 none) rfl

end CardCache

end EndToEnd
