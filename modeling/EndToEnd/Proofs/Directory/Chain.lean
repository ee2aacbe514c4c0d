/-
  The chains that a sound directory serves.

  A card leads back over listed cards of its identity, each older than the one before and marked as
  replaced, down to a card without predecessor. `Descends` says so of the cards that follow, and
  `resolve_eq` that the directory serves exactly these: the bound on the length of a chain never cuts
  one off.
-/
import EndToEnd.Proofs.Card.Dated
import EndToEnd.Proofs.Directory.Sound

namespace EndToEnd

namespace Listings

variable {S : CipherSuite} {t t' : Listings} {identity : String}

/-- The cards from the predecessor with the given id on, newest first, all of them older than `newer`. -/
inductive Descends (t : Listings) (identity : String) :
    (newer : Timestamp) → Option String → List Card → Prop where
  | done {newer : Timestamp} : Descends t identity newer none []
  | step {newer : Timestamp} {l : Listing} {cs : List Card} (listed : l ∈ t.rows)
      (own : l.card.identity = identity) (older : l.card.createdAt < newer)
      (replaced : l.card.outdated = true)
      (others : Descends t identity l.card.createdAt l.card.previousId cs) :
      Descends t identity newer (some l.id) (l.card :: cs)

/-- Every listed card leads back to a card without predecessor. The recursion is on time. -/
theorem Ordered.descends (ho : t.Ordered) (l : Listing) (hl : l ∈ t.rows) :
    ∃ cs, Descends t l.card.identity l.card.createdAt l.card.previousId cs := by
  cases hp : l.card.previousId with
  | none => exact ⟨[], .done⟩
  | some id =>
    obtain ⟨p, hpm, rfl, hi, holder, hmarked⟩ := ho l hl id hp
    obtain ⟨cs, hcs⟩ := Ordered.descends ho p hpm
    rw [hi] at hcs
    exact ⟨p.card :: cs, .step hpm hi holder hmarked hcs⟩
termination_by l.card.createdAt.rank
decreasing_by exact Timestamp.rank_lt holder

theorem Sound.descends (hs : Sound S t) (l : Listing) (hl : l ∈ t.rows) :
    ∃ cs, Descends t l.card.identity l.card.createdAt l.card.previousId cs :=
  Ordered.descends hs.previous l hl

namespace Descends

variable {newer : Timestamp} {id? : Option String} {cs : List Card}

theorem mem (h : Descends t identity newer id? cs) {c : Card} (hc : c ∈ cs) :
    ∃ l ∈ t.rows, l.card = c ∧ c.identity = identity ∧ c.createdAt < newer ∧ c.outdated = true := by
  induction h with
  | done => cases hc
  | step hl hi holder ho _ ih =>
    rcases List.mem_cons.1 hc with rfl | hc
    · exact ⟨_, hl, rfl, hi, holder, ho⟩
    · obtain ⟨l, hl, hlc, hi', holder', ho'⟩ := ih hc
      exact ⟨l, hl, hlc, hi', Int64.lt_trans holder' holder, ho'⟩

/-- No card occurs twice, since each is older than the one before. -/
theorem nodup (h : Descends t identity newer id? cs) : (cs.map Card.id).Nodup := by
  induction h with
  | done => exact List.nodup_nil
  | @step newer l cs hl _ _ _ hothers ih =>
    rw [List.map_cons, List.nodup_cons]
    refine ⟨fun hmem => ?_, ih⟩
    obtain ⟨c, hc, hid⟩ := List.mem_map.1 hmem
    obtain ⟨p, hp, rfl, -, holder, -⟩ := hothers.mem hc
    obtain rfl := Table.eq_of_key_eq hp hl hid
    exact Int64.lt_irrefl holder

/-- Each card is older than those before it. -/
theorem older (h : Descends t identity newer id? cs) :
    cs.Pairwise fun c d => d.createdAt < c.createdAt := by
  induction h with
  | done => exact List.Pairwise.nil
  | step _ _ _ _ hothers ih =>
    refine List.pairwise_cons.2 ⟨fun c hc => ?_, ih⟩
    obtain ⟨-, -, -, -, holder, -⟩ := hothers.mem hc
    exact holder

theorem length_le (h : Descends t identity newer id? cs) : cs.length ≤ t.rows.length := by
  have hsub : cs.map Card.id ⊆ t.rows.map Listing.id := by
    intro id hid
    obtain ⟨c, hc, rfl⟩ := List.mem_map.1 hid
    obtain ⟨l, hl, rfl, -⟩ := h.mem hc
    exact List.mem_map.2 ⟨l, hl, rfl⟩
  have := h.nodup.length_le_of_subset hsub
  rwa [List.length_map, List.length_map] at this

/-- The directory's walk finds these cards, if it may go far enough. -/
theorem ancestors_eq (h : Descends t identity newer id? cs) {n : Nat} (hn : cs.length ≤ n) :
    t.ancestors identity n id? = cs := by
  induction h generalizing n with
  | done => cases n <;> rfl
  | @step newer l cs hl hi _ _ _ ih =>
    cases n with
    | zero => cases hn
    | succ n =>
      rw [List.length_cons] at hn
      rw [ancestors, Table.find?_key hl]
      dsimp only
      rw [if_pos hi, ih (by omega)]

end Descends

/-- What a card leads back to is what the directory serves with it. -/
theorem resolve_eq {c : Card} {cs : List Card}
    (h : Descends t c.identity c.createdAt c.previousId cs) : t.resolve c = ⟨c, cs⟩ := by
  unfold resolve
  rw [h.ancestors_eq h.length_le]

/-! ## The current card -/

/-- A current card of an identity, with what it leads back to. -/
structure Serves (t : Listings) (identity : String) (chain : CardChain) : Prop where
  listed : ∃ l ∈ t.rows, l.card = chain.head ∧ l.isCurrent = true
  owned : chain.head.identity = identity
  descends : Descends t identity chain.head.createdAt chain.head.previousId chain.ancestors

namespace Serves

variable {chain : CardChain}

/-- The cards of a chain that is served are listed under its identity. -/
theorem mem (h : t.Serves identity chain) {c : Card} (hc : c ∈ chain.cards) :
    ∃ l ∈ t.rows, l.card = c ∧ c.identity = identity := by
  rcases List.mem_cons.1 hc with rfl | hc
  · obtain ⟨l, hl, hcard, -⟩ := h.listed
    exact ⟨l, hl, hcard, h.owned⟩
  · obtain ⟨l, hl, hcard, hi, -⟩ := h.descends.mem hc
    exact ⟨l, hl, hcard, hi⟩

/-- Only an identity with a name has a card. -/
theorem named (h : t.Serves identity chain) (hs : Sound S t) : Text.isBlank identity = false := by
  obtain ⟨l, hl, hcard, -⟩ := h.listed
  rw [← h.owned, ← hcard]
  exact hs.named l hl

theorem falling (h : t.Serves identity chain) : chain.Falling where
  older := by
    refine List.pairwise_cons.2 ⟨fun c hc => ?_, h.descends.older⟩
    obtain ⟨-, -, -, -, holder, -⟩ := h.descends.mem hc
    exact holder
  distinct := by
    intro c hc d hd hid
    obtain ⟨l, hl, rfl, -⟩ := h.mem hc
    obtain ⟨m, hm, rfl, -⟩ := h.mem hd
    rw [Table.eq_of_key_eq hl hm hid]

/-- A chain is still served where the listings of its identity are still there. -/
theorem mono (h : t.Serves identity chain)
    (hkeeps : ∀ l ∈ t.rows, l.card.identity = identity → l ∈ t'.rows) :
    t'.Serves identity chain := by
  have hdescends : ∀ {newer : Timestamp} {id? : Option String} {cs : List Card},
      Descends t identity newer id? cs → Descends t' identity newer id? cs := by
    intro newer id? cs hd
    induction hd with
    | done => exact .done
    | step hl hi holder ho _ ih => exact .step (hkeeps _ hl hi) hi holder ho ih
  obtain ⟨l, hl, hcard, hcurrent⟩ := h.listed
  refine ⟨⟨l, hkeeps l hl ?_, hcard, hcurrent⟩, h.owned, hdescends h.descends⟩
  rw [hcard]
  exact h.owned

end Serves

theorem isCurrent_of_filter {l : Listing}
    (hl : l ∈ t.rows.filter fun l => l.isCurrent && l.card.identity = identity) :
    l ∈ t.rows ∧ l.isCurrent = true ∧ l.card.identity = identity := by
  rw [List.mem_filter, Bool.and_eq_true, decide_eq_true_eq] at hl
  exact hl

/-- Only chains of current cards are found. -/
theorem Ordered.serves_of_current (ho : t.Ordered) {chain : CardChain}
    (hc : chain ∈ t.current identity) : t.Serves identity chain := by
  unfold current Timestamp.inOrder at hc
  obtain ⟨l, hl, rfl⟩ := List.mem_map.1 (List.mem_mergeSort.1 hc)
  obtain ⟨hl, hcurrent, howned⟩ := isCurrent_of_filter hl
  obtain ⟨cs, hcs⟩ := ho.descends l hl
  rw [resolve_eq hcs]
  exact ⟨⟨l, hl, rfl, hcurrent⟩, howned, howned ▸ hcs⟩

theorem Sound.serves_of_current (hs : Sound S t) {chain : CardChain}
    (hc : chain ∈ t.current identity) : t.Serves identity chain :=
  Ordered.serves_of_current hs.previous hc

/-- The current listings of an identity are at most one. -/
theorem Sound.filter_current (hs : Sound S t) (identity : String) :
    (t.rows.filter fun l => l.isCurrent && l.card.identity = identity) = [] ∨
      ∃ l ∈ t.rows, l.isCurrent = true ∧ l.card.identity = identity ∧
        (t.rows.filter fun l => l.isCurrent && l.card.identity = identity) = [l] := by
  have hiff : ∀ l : Listing, (l.isCurrent && l.card.identity = identity) = true ↔
      l.isCurrent = true ∧ l.card.identity = identity := by
    intro l
    rw [Bool.and_eq_true, decide_eq_true_eq]
  by_cases h : ∃ l ∈ t.rows, l.isCurrent = true ∧ l.card.identity = identity
  · obtain ⟨l, hl, hc, hi⟩ := h
    refine .inr ⟨l, hl, hc, hi, Table.filter_eq_singleton hl ((hiff l).2 ⟨hc, hi⟩) ?_⟩
    intro l' hl' hp
    obtain ⟨hc', hi'⟩ := (hiff l').1 hp
    exact hs.single l' hl' l hl hc' hc (hi'.trans hi.symm)
  · refine .inl (List.filter_eq_nil_iff.2 fun l hl hp => h ?_)
    exact ⟨l, hl, (hiff l).1 hp⟩

/-- A sound directory serves the one current card of an identity, or nothing if there is none. -/
theorem Sound.current_eq (hs : Sound S t) (identity : String) :
    (t.current identity = [] ∧ ∀ l ∈ t.rows, l.isCurrent = true → l.card.identity ≠ identity) ∨
      ∃ chain, t.current identity = [chain] ∧ t.Serves identity chain := by
  unfold current Timestamp.inOrder
  rcases hs.filter_current identity with hf | ⟨l, hl, hc, hi, hf⟩
  · left
    rw [hf, List.map_nil, List.mergeSort_nil]
    refine ⟨rfl, fun l hl hc hi => ?_⟩
    have hmem : l ∈ t.rows.filter fun l => l.isCurrent && l.card.identity = identity :=
      List.mem_filter.2 ⟨hl, by rw [hc, Bool.true_and]; exact decide_eq_true hi⟩
    rw [hf] at hmem
    cases hmem
  · right
    obtain ⟨cs, hcs⟩ := hs.descends l hl
    rw [hf, List.map_singleton, List.mergeSort_singleton, resolve_eq hcs]
    exact ⟨_, rfl, ⟨l, hl, rfl, hc⟩, hi, hi ▸ hcs⟩

/-- What is served for an identity is settled by its current listing. -/
theorem Sound.current_of_serves (hs : Sound S t) {chain : CardChain} (h : t.Serves identity chain) :
    t.current identity = [chain] := by
  obtain ⟨l, hl, hcard, hc⟩ := h.listed
  have hi : l.card.identity = identity := by rw [hcard]; exact h.owned
  have hd := h.descends
  rw [← h.owned] at hd
  rcases hs.filter_current identity with hf | ⟨l', hl', hc', hi', hf⟩
  · have hmem : l ∈ t.rows.filter fun l => l.isCurrent && l.card.identity = identity :=
      List.mem_filter.2 ⟨hl, by rw [hc, Bool.true_and]; exact decide_eq_true hi⟩
    rw [hf] at hmem
    cases hmem
  · obtain rfl := hs.single l hl l' hl' hc hc' (hi.trans hi'.symm)
    unfold current Timestamp.inOrder
    rw [hf, List.map_singleton, List.mergeSort_singleton, hcard, resolve_eq hd]

/-! ## Chains of other identities -/

/-- A card changes nothing for another identity. -/
theorem Published.serves_other {c : Card} (h : Published t t' c) (hne : c.identity ≠ identity)
    {chain : CardChain} (hs : t.Serves identity chain) : t'.Serves identity chain := by
  refine hs.mono fun l hl hi => (h.rows l).2 (.inr ⟨l, hl, (Listing.facing_of_ne fun hp => ?_).symm⟩)
  obtain ⟨p, hpm, hid, howned, -⟩ := h.replaces _ hp
  obtain rfl := Table.eq_of_key_eq hpm hl hid
  exact hne (howned.symm.trans hi)

/-- A revocation changes nothing for another identity. -/
theorem serves_of_revoke {other : CardChain} (h : t.revoke other.head.id = .ok t')
    {identity' : String} (ho : t.Serves identity' other) (hne : identity' ≠ identity)
    {chain : CardChain} (hs : t.Serves identity chain) : t'.Serves identity chain := by
  obtain ⟨p, hp, hid, hrows⟩ := revoke_ok h
  refine hs.mono fun l hl hi => (hrows l).2 (.inr ⟨hl, fun heq => ?_⟩)
  obtain rfl := Table.eq_of_key_eq hl hp (heq.trans hid.symm)
  obtain ⟨q, hq, hcard, howned⟩ := ho.mem List.mem_cons_self
  obtain rfl := Table.eq_of_key_eq hl hq (hid.trans (congrArg Card.id hcard).symm)
  exact hne (howned.symm.trans ((congrArg Card.identity hcard).symm.trans hi))

/-! ## The chain of a new card -/

namespace Published

variable {c : Card}

/-- A card that was replaced before stays listed as it is. -/
theorem mem_of_outdated (h : Published t t' c) {l : Listing} (hl : l ∈ t.rows)
    (ho : l.card.outdated = true) : ∃ l' ∈ t'.rows, l'.card = l.card := by
  refine ⟨l.facing c, (h.rows _).2 (.inr ⟨l, hl, rfl⟩), ?_⟩
  have hmark : (l.facing c).card.outdated = l.card.outdated := by
    rw [ho, l.facing_outdated c]
    exact .inl ho
  rw [l.facing_card c, hmark, Card.marked_self]

/-- What a card leads back to is not changed by another one. -/
theorem descends (h : Published t t' c) {newer : Timestamp} {id? : Option String} {cs : List Card}
    (hd : Descends t identity newer id? cs) : Descends t' identity newer id? cs := by
  induction hd with
  | done => exact .done
  | @step newer l cs hl hi holder ho _ ih =>
    obtain ⟨l', hl', hcard⟩ := h.mem_of_outdated hl ho
    have hid : l'.id = l.id := congrArg Card.id hcard
    rw [← hcard] at hi holder ho ih ⊢
    rw [← hid]
    exact .step hl' hi holder ho ih

/-- A first card is served on its own. -/
theorem serves_single (h : Published t t' c) (hp : c.previousId = none) (ho : c.outdated = false) :
    t'.Serves c.identity (.single c) where
  listed := ⟨_, h.listed, rfl, Listing.isCurrent_eq_true.2 ⟨rfl, ho⟩⟩
  owned := rfl
  descends := by
    rw [show (CardChain.single c).head.previousId = none from hp]
    exact .done

/-- A card in place of another one is served in front of it. -/
theorem serves_extend (h : Published t t' c) {chain : CardChain} (hs : t.Serves identity chain)
    (hp : c.previousId = some chain.head.id) (hi : c.identity = identity) (ho : c.outdated = false) :
    t'.Serves identity (.extend c chain.outdate) where
  listed := ⟨_, h.listed, rfl, Listing.isCurrent_eq_true.2 ⟨rfl, ho⟩⟩
  owned := hi
  descends := by
    obtain ⟨l, hl, hcard, -⟩ := hs.listed
    have hid : chain.head.id = l.id := (congrArg Card.id hcard).symm
    obtain ⟨q, hq, hqid, -, -, holder⟩ := h.replaces _ hp
    obtain rfl := Table.eq_of_key_eq hq hl (hqid.trans hid)
    have howned := hs.owned
    have hd := h.descends hs.descends
    rw [← hcard] at howned hd
    rw [hid] at hp
    have hmem : { q with card := q.card.marked true } ∈ t'.rows :=
      (h.rows _).2 (.inr ⟨q, hq, (Listing.facing_of_named hp).symm⟩)
    rw [show (CardChain.extend c chain.outdate).head.previousId = some q.id from hp,
      show (CardChain.extend c chain.outdate).ancestors = chain.head.marked true :: chain.ancestors from
        rfl, ← hcard]
    exact .step hmem howned holder rfl hd

end Published

end Listings

end EndToEnd
