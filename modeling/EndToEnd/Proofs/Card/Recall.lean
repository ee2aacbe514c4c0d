/-
  Reading a cache that agrees with a directory.

  The rows of a coherent cache can all be read, and reading changes nothing. A chain that the
  directory serves is read as the directory serves it, once all its cards are cached with their marks;
  and it is what the cache gives for its identity, once no card is left that the cache takes for
  current and the directory does not.
-/
import EndToEnd.Proofs.Card.Coherent
import EndToEnd.Proofs.Card.Search

namespace EndToEnd

variable {S : CipherSuite} {t : Listings} {k : CardCache} {identity : String}

/-! ## Rows of listed cards -/

/-- A row of a coherent cache is the row of a listed card, and that card is read from it. -/
theorem CardRows.Coherent.toCard {rows : CardRows} (h : rows.Coherent t) (hs : t.Regular S) {r : CardRow}
    (hr : r ∈ rows.rows) : ∃ c, t.Lists c ∧ r = CardRow.ofCard c ∧ r.toCard S = .ok c := by
  obtain ⟨c, hc, rfl⟩ := h r hr
  exact ⟨c, hc, rfl, CardRow.toCard_ofCard (hc.genuine hs)⟩

theorem CardRows.Coherent.readable {rows : CardRows} (h : rows.Coherent t) (hs : t.Regular S) :
    rows.Readable S := by
  intro r hr
  obtain ⟨c, -, hrc, hrow⟩ := h.toCard hs hr
  exact ⟨c, hrc, hrow⟩

/-- A listed card that is cached with its mark is what its row holds. -/
theorem CardRows.Coherent.reads {rows : CardRows} (h : rows.Coherent t) (hs : t.Regular S) {l : Listing}
    (hl : l ∈ t.rows) (hc : rows.Covers l.card) : rows.Reads S l.card :=
  ⟨_, h.find?_listed hs hl hc, CardRow.toCard_ofCard (hs.genuine l hl), rfl⟩

namespace Listings.Descends

variable {rows : CardRows} {newer : Timestamp} {id? : Option String} {cs : List Card}

/-- A predecessor is older than the card, so it is another one. -/
theorem id_ne {l : Listing} (hd : t.Descends identity l.card.createdAt id? cs) (hl : l ∈ t.rows)
    {c : Card} (hc : c ∈ cs) : c.id ≠ l.card.id := by
  intro hid
  obtain ⟨m, hm, rfl, -, holder, -⟩ := hd.mem hc
  obtain rfl := Table.eq_of_key_eq hm hl hid
  exact Int64.lt_irrefl holder

/-- The way back from a card that is listed is the way back from it in the cache, where all that lies
behind it is cached. -/
theorem walks (hd : t.Descends identity newer id? cs) (hread : ∀ c ∈ cs, rows.Reads S c) {c : Card}
    {visited : List String} (howned : c.identity = identity) (htime : c.createdAt = newer)
    (hprevious : c.previousId = id?) (hv : ∀ d ∈ cs, d.id ∉ visited) : rows.Walks S visited c cs := by
  induction hd generalizing c visited with
  | done => exact .stop (.first hprevious)
  | @step newer l cs hl hi holder ho hothers ih =>
    have hdistinct := (Listings.Descends.step hl hi holder ho hothers).nodup
    rw [List.map_cons, List.nodup_cons] at hdistinct
    have hbehind : ∀ d ∈ cs, d.id ∉ l.card.id :: visited := by
      intro d hmem
      rw [List.mem_cons, not_or]
      exact ⟨fun hid => hdistinct.1 (List.mem_map.2 ⟨d, hmem, hid⟩), hv d (List.mem_cons_of_mem _ hmem)⟩
    refine .next hprevious (hv l.card List.mem_cons_self) (hread l.card List.mem_cons_self)
      (hi.trans howned.symm) (by rw [htime]; exact holder) ?_
    exact ih (fun d hmem => hread d (List.mem_cons_of_mem _ hmem)) hi rfl rfl hbehind

end Listings.Descends

/-- The cache takes no card for current that the directory does not. -/
def CardRows.Fresh (rows : CardRows) (t : Listings) : Prop :=
  ∀ r ∈ rows.rows, r.outdated = false →
    ∃ l ∈ t.rows, l.isCurrent = true ∧ r = CardRow.ofCard l.card

namespace CardCache

/-! ## Reading leaves the cache as it is -/

/-- A cached card is read with some of its predecessors. -/
theorem resolve_kept (hk : k.Reliable) (hs : t.Regular S) (h : k.rows.Coherent t) {r : CardRow}
    (hr : r ∈ k.rows.rows) :
    ∃ chain, resolve S r k = (.ok chain, k) ∧ t.Lists chain.head ∧ r = CardRow.ofCard chain.head := by
  obtain ⟨chain, hrun, hrc, hhead⟩ := resolve_of_readable hk (h.readable hs) hr
  obtain ⟨c, hc, -, hrow⟩ := h.toCard hs hr
  obtain rfl : c = chain.head := Except.ok.inj (hrow.symm.trans hhead)
  exact ⟨chain, hrun, hc, hrc⟩

/-- A card is got by its id if it is cached. -/
theorem get_kept (hk : k.Reliable) (hs : t.Regular S) (h : k.rows.Coherent t) (id : String) :
    (k.rows.find? id = none ∧ get S id k = (.ok none, k)) ∨
      ∃ chain, get S id k = (.ok (some chain), k) ∧ t.Lists chain.head ∧
        k.rows.find? id = some (CardRow.ofCard chain.head) := by
  cases hf : k.rows.find? id with
  | none =>
    refine .inl ⟨rfl, ?_⟩
    rw [get, Action.bind_ok (query_run hk _), hf]
    rfl
  | some r =>
    have hr := Table.mem_of_find? hf
    obtain ⟨chain, hrun, hc, hrc⟩ := resolve_kept hk hs h hr
    have hget := get_of_resolve hk hr hrun
    rw [Table.key_of_find? hf] at hget
    exact .inr ⟨chain, hget, hc, congrArg some hrc⟩

theorem searchFrom_kept (hk : k.Reliable) (hs : t.Regular S) (h : k.rows.Coherent t)
    (seen identities : List String) : (searchFrom S seen identities k).2 = k := by
  obtain ⟨result, hrun, -⟩ := searchFrom_ends hk (h.readable hs) seen identities
  rw [hrun]

/-! ## Chains that are cached whole -/

/-- A chain that the directory serves is read as it is served. -/
theorem resolve_run (hk : k.Reliable) (hs : t.Regular S) (h : k.rows.Coherent t) {chain : CardChain}
    (hserves : t.Serves identity chain) (hc : ∀ c ∈ chain.cards, k.rows.Covers c) :
    resolve S (CardRow.ofCard chain.head) k = (.ok chain, k) := by
  obtain ⟨l, hl, hcard, -⟩ := hserves.listed
  have hrow : (CardRow.ofCard chain.head).toCard S = .ok chain.head := by
    rw [← hcard]
    exact CardRow.toCard_ofCard (hs.genuine l hl)
  have hd := hserves.descends
  have hread : ∀ c ∈ chain.ancestors, k.rows.Reads S c := by
    intro c hmem
    obtain ⟨m, hm, rfl, -⟩ := hd.mem hmem
    exact h.reads hs hm (hc _ (List.mem_cons_of_mem _ hmem))
  have hv : ∀ c ∈ chain.ancestors, c.id ∉ [chain.head.id] := by
    intro c hmem hid
    rw [List.mem_singleton, ← hcard] at hid
    rw [← hcard] at hd
    exact hd.id_ne hl hmem hid
  exact resolve_of_walks hk hrow (hd.walks hread hserves.owned rfl rfl hv)

/-- Of a fresh cache, the current row of an identity that is served a cached chain is its head's. -/
theorem standing_served (hs : t.Sound S) (h : k.rows.Coherent t) (hfresh : k.rows.Fresh t)
    {chain : CardChain} (hserves : t.Serves identity chain) (hc : k.rows.Covers chain.head) :
    k.rows.standing identity = [CardRow.ofCard chain.head] := by
  obtain ⟨l, hl, hcard, hcurrent⟩ := hserves.listed
  have howned := hserves.owned
  rw [← hcard] at hc howned ⊢
  have hrow : CardRow.ofCard l.card ∈ k.rows.rows := Table.mem_of_find? (h.find?_listed hs.regular hl hc)
  refine List.perm_singleton.1 ?_
  rw [List.perm_ext_iff_of_nodup (k.rows.nodup_standing identity) (List.pairwise_singleton _ _)]
  intro r
  rw [CardRows.mem_standing, List.mem_singleton]
  constructor
  · rintro ⟨hr, hri, hro⟩
    obtain ⟨l', hl', hcurrent', rfl⟩ := hfresh r hr hro
    obtain rfl := hs.single l' hl' l hl hcurrent' hcurrent (hri.trans howned.symm)
    rfl
  · rintro rfl
    exact ⟨hrow, howned, (hs.isCurrent_iff hl).1 hcurrent⟩

/-- A fresh cache gives the chain that the directory serves, if it is cached whole. -/
theorem current_run (hk : k.Reliable) (hs : t.Sound S) (h : k.rows.Coherent t) (hfresh : k.rows.Fresh t)
    {chain : CardChain} (hserves : t.Serves identity chain)
    (hc : ∀ c ∈ chain.cards, k.rows.Covers c) :
    current S identity k = (.ok (some chain), k) := by
  have hrows := standing_served hs h hfresh hserves (hc _ List.mem_cons_self)
  have hchoose : k.policy.choose (·.createdAt) identity (k.rows.standing identity) =
      .ok (CardRow.ofCard chain.head) := by
    rw [hrows]
    rfl
  rw [current_of_choice hk hchoose, resolve_run hk hs.regular h hserves hc]
  rfl

end CardCache

end EndToEnd
