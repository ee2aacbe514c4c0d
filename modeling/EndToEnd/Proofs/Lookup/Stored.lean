/-
  What a cache answers right after a chain was stored that the directory serves.

  Storing a chain marks the cached cards that it leads back to, and no others. A card of the identity
  that the cache took for current before, and that is not of the chain, therefore stays current
  (`CardRows.strays`): the directory has withdrawn it, and its owner has started over with a card that
  does not name it. If there are no strays, the cache gives the chain. Otherwise it depends on the
  policy for duplicates what it gives.

  Proved:
  * `CardCache.standing_stored`: after storing, the current cards of the identity are the head of the
    chain and the strays.
  * `Lookup.reload_run`: a lookup that passes over the cache gives what is served.
  * `Lookup.answers_of_current`: what lookups answer, by what the cache takes for current.
-/
import EndToEnd.Proofs.Directory.Mirror
import EndToEnd.Proofs.Lookup.Desk

open EndToEnd.Action

namespace EndToEnd

variable {S : CipherSuite} {t : Listings} {identity : String} {chain : CardChain}

/-- The cards of the identity of a chain that are taken for current and are not of the chain. -/
def CardRows.strays (rows : CardRows) (chain : CardChain) : List CardRow :=
  rows.rows.filter fun r =>
    !r.outdated && (r.identity = chain.head.identity && chain.cards.all fun c => c.id ≠ r.id)

theorem CardRows.mem_strays {rows : CardRows} {r : CardRow} :
    r ∈ rows.strays chain ↔ r ∈ rows.rows ∧ r.outdated = false ∧
      r.identity = chain.head.identity ∧ ∀ c ∈ chain.cards, c.id ≠ r.id := by
  simp only [strays, List.mem_filter, Bool.and_eq_true, Bool.not_eq_true', decide_eq_true_eq,
    List.all_eq_true]

namespace Listings

/-- A card that a chain leads back to is the first one behind the card that names it. -/
theorem Descends.first {newer : Timestamp} {id : String} {cs : List Card}
    (h : t.Descends identity newer (some id) cs) : ∃ c ∈ cs, c.id = id := by
  cases h with
  | step => exact ⟨_, List.mem_cons_self, rfl⟩

/-- The predecessors of the cards that a chain leads back to are among these. -/
theorem Descends.closed {newer : Timestamp} {id? : Option String} {cs : List Card}
    (h : t.Descends identity newer id? cs) :
    ∀ c ∈ cs, ∀ id, c.previousId = some id → ∃ d ∈ cs, d.id = id := by
  induction h with
  | done => exact nofun
  | @step newer l cs hl _ _ _ hothers ih =>
    intro c hc id hid
    have hmem : ∃ d ∈ cs, d.id = id := by
      rcases List.mem_cons.1 hc with rfl | hc
      · rw [hid] at hothers
        exact hothers.first
      · exact ih c hc id hid
    obtain ⟨d, hd, hdid⟩ := hmem
    exact ⟨d, List.mem_cons_of_mem _ hd, hdid⟩

/-- The predecessors of the cards of a chain that is served are of the chain. -/
theorem Serves.closed (h : t.Serves identity chain) :
    ∀ c ∈ chain.cards, ∀ id, c.previousId = some id → ∃ d ∈ chain.cards, d.id = id := by
  intro c hc id hid
  have hmem : ∃ d ∈ chain.ancestors, d.id = id := by
    have hdescends := h.descends
    rcases List.mem_cons.1 hc with rfl | hc
    · rw [hid] at hdescends
      exact hdescends.first
    · exact hdescends.closed c hc id hid
  obtain ⟨d, hd, hdid⟩ := hmem
  exact ⟨d, List.mem_cons_of_mem _ hd, hdid⟩

end Listings

/-! ## The current cards after storing -/

namespace CardCache

variable {k k' : CardCache}

/-- Storing cards leaves the rows as they are that are not of these cards, nor of their
predecessors. -/
theorem mem_of_each_store (hk : k.Reliable) (hs : t.Regular S) (h : k.rows.Coherent t) {cards : List Card}
    (hcards : ∀ c ∈ cards, t.Lists c) (hrun : Action.each store cards k = (.ok (), k')) {r : CardRow}
    (hr : r ∈ k.rows.rows) (hother : ∀ c ∈ cards, c.id ≠ r.id ∧ c.previousId ≠ some r.id) :
    r ∈ k'.rows.rows := by
  induction cards generalizing k with
  | nil =>
    cases hrun
    exact hr
  | cons c cards ih =>
    have hc := hcards c List.mem_cons_self
    obtain ⟨hid, hnamed⟩ := hother c List.mem_cons_self
    have hkept : r ∈ (k.rows.adopt c).rows :=
      CardRows.mem_adopt.2 (.inr ⟨r, hr, Ne.symm hid, (if_neg hnamed).symm⟩)
    rw [Action.each_cons, Action.bind_ok (store_of_not_refused hk (h.refusal_eq_none hs hc))] at hrun
    exact ih (hk.withRows _) (h.adopt hs hc) (fun d hd => hcards d (List.mem_cons_of_mem _ hd)) hrun
      hkept fun d hd => hother d (List.mem_cons_of_mem _ hd)

/-- What a chain that is served makes of a cache that it was stored to. -/
structure Keeps (t : Listings) (identity : String) (chain : CardChain) (k k' : CardCache) : Prop where
  serves : t.Serves identity chain
  reliable : k'.Reliable
  policy : k'.policy = k.policy
  stored : CardRows.Stored t chain.cards k.rows k'.rows
  strays : ∀ r ∈ k.rows.strays chain, r ∈ k'.rows.rows

theorem keeps_of_storeChain (hk : k.Reliable) (hs : t.Sound S) (h : k.rows.Coherent t)
    (hserves : t.Serves identity chain) (hrun : storeChain chain k = (.ok (), k')) :
    Keeps t identity chain k k' := by
  obtain ⟨rows, hrun', hstored⟩ := storeChain_run hk hs.regular h hserves.lists
  obtain rfl : k' = { k with rows } := (Prod.mk.inj (hrun.symm.trans hrun')).2
  refine ⟨hserves, hk.withRows rows, rfl, hstored, fun r hr => ?_⟩
  obtain ⟨hmem, -, -, hother⟩ := CardRows.mem_strays.1 hr
  have hcards : ∀ c ∈ chain.cards.reverse, t.Lists c :=
    fun c hc => hserves.lists c (List.mem_reverse.1 hc)
  refine mem_of_each_store hk hs.regular h hcards hrun hmem fun c hc => ?_
  rw [List.mem_reverse] at hc
  refine ⟨hother c hc, fun hnamed => ?_⟩
  obtain ⟨d, hd, hid⟩ := hserves.closed c hc r.id hnamed
  exact hother d hd hid

namespace Keeps

variable (h : Keeps t identity chain k k')
include h

/-- The row of the head is current. -/
theorem head_mem (hs : t.Sound S) :
    CardRow.ofCard chain.head ∈ k'.rows.rows ∧ chain.head.outdated = false := by
  obtain ⟨l, hl, hcard, hcurrent⟩ := h.serves.listed
  have hcovers := h.stored.covers _ List.mem_cons_self
  rw [← hcard] at hcovers ⊢
  exact ⟨Table.mem_of_find? (h.stored.coherent.find?_listed hs.regular hl hcovers),
    (hs.isCurrent_iff hl).1 hcurrent⟩

/-- The current cards of the identity are the head of the chain and the strays. -/
theorem standing_perm (hs : t.Sound S) : (k'.rows.standing identity).Perm
    (CardRow.ofCard chain.head :: k.rows.strays chain) := by
  obtain ⟨hhead, hunmarked⟩ := h.head_mem hs
  have howned := h.serves.owned
  have hnew : CardRow.ofCard chain.head ∉ k.rows.strays chain :=
    fun hmem => (CardRows.mem_strays.1 hmem).2.2.2 chain.head List.mem_cons_self rfl
  have hdistinct : (CardRow.ofCard chain.head :: k.rows.strays chain).Nodup :=
    List.nodup_cons.2 ⟨hnew, k.rows.nodup_filter _⟩
  rw [List.perm_ext_iff_of_nodup (k'.rows.nodup_standing identity) hdistinct]
  intro r
  rw [CardRows.mem_standing, List.mem_cons]
  constructor
  · rintro ⟨hr, hri, hro⟩
    rcases h.stored.current r hr hro with hbefore | ⟨c, hc, hco, rfl⟩
    · by_cases hof : ∃ c ∈ chain.cards, c.id = r.id
      · obtain ⟨c, hc, hid⟩ := hof
        rcases List.mem_cons.1 hc with rfl | hc
        · exact .inl (Table.eq_of_key_eq hr hhead hid.symm)
        · -- a card that the chain leads back to is marked
          obtain ⟨-, -, -, -, -, hmarked⟩ := h.serves.descends.mem hc
          obtain ⟨q, hq, hqid, hqo⟩ := h.stored.covers c (List.mem_cons_of_mem _ hc)
          obtain rfl := Table.eq_of_key_eq hq hr (hqid.trans hid)
          rw [hqo hmarked] at hro
          cases hro
      · refine .inr (CardRows.mem_strays.2 ⟨hbefore, hro, hri.trans howned.symm, fun c hc hid => ?_⟩)
        exact hof ⟨c, hc, hid⟩
    · rcases List.mem_cons.1 hc with rfl | hc
      · exact .inl rfl
      · obtain ⟨-, -, -, -, -, hmarked⟩ := h.serves.descends.mem hc
        rw [hco] at hmarked
        cases hmarked
  · rintro (rfl | hr)
    · exact ⟨hhead, howned, hunmarked⟩
    · obtain ⟨-, hro, hri, -⟩ := CardRows.mem_strays.1 hr
      exact ⟨h.strays r hr, hri.trans howned, hro⟩

end Keeps

/-! ## What is chosen among them -/

/-- The current card of an identity, where there are several to choose from in vain. -/
theorem current_of_ambiguous (hk : k.Reliable) (hpolicy : k.policy = .reject)
    (htwo : 2 ≤ (k.rows.standing identity).length) : current S identity k =
      (.error (.ambiguousCards identity (k.rows.standing identity).length), k) := by
  rcases current_cases S hk identity with ⟨hnone, -⟩ | ⟨-, -, hrun⟩ | ⟨r, -, hchoose, -⟩
  · rw [hnone] at htwo
    cases htwo
  · exact hrun
  · rw [hpolicy, DuplicatePolicy.choose_reject htwo] at hchoose
    cases hchoose

namespace Keeps

variable (h : Keeps t identity chain k k')
include h

/-- The chain is chosen if it has no rival, or if the newest card is preferred and all its rivals are
older. -/
theorem current_chain (hs : t.Sound S)
    (hno : k.rows.strays chain = [] ∨ k.policy = .preferNewest ∧
      ∀ r ∈ k.rows.strays chain, r.createdAt < chain.head.createdAt) :
    current S identity k' = (.ok (some chain), k') := by
  have hperm := h.standing_perm hs
  have hchoose : k'.policy.choose (·.createdAt) identity (k'.rows.standing identity) =
      .ok (CardRow.ofCard chain.head) := by
    rcases hno with hnone | ⟨hpolicy, hearlier⟩
    · rw [hnone] at hperm
      rw [List.perm_singleton.1 hperm]
      rfl
    · rcases k'.policy.choose_cases (·.createdAt) identity (k'.rows.standing identity) with
        ⟨hnil, -⟩ | ⟨hreject, -, -⟩ | ⟨r, hr, -, hr'⟩
      · rw [hnil, List.nil_perm] at hperm
        cases hperm
      · rw [h.policy, hpolicy] at hreject
        cases hreject
      · rw [h.policy, hpolicy, DuplicatePolicy.choose_preferNewest] at hr' ⊢
        cases hlatest : Timestamp.latest? (·.createdAt) (k'.rows.standing identity) with
        | none =>
          rw [hlatest] at hr'
          cases hr'
        | some q =>
          obtain ⟨hq, hlast⟩ := Timestamp.latest?_spec hlatest
          have hle := hlast _ (hperm.mem_iff.2 List.mem_cons_self)
          rcases List.mem_cons.1 (hperm.mem_iff.1 hq) with rfl | hstray
          · rfl
          · exact absurd (hearlier q hstray) (Int64.not_lt.2 hle)
  rw [current_of_choice h.reliable hchoose,
    resolve_run h.reliable hs.regular h.stored.coherent h.serves h.stored.covers]
  rfl

/-- Where several current cards are refused, they are counted. -/
theorem current_ambiguous (hs : t.Sound S) (hpolicy : k.policy = .reject)
    (hsome : k.rows.strays chain ≠ []) : current S identity k' =
      (.error (.ambiguousCards identity ((k.rows.strays chain).length + 1)), k') := by
  have hlength := (h.standing_perm hs).length_eq
  rw [List.length_cons] at hlength
  have hpos := List.length_pos_iff.2 hsome
  rw [current_of_ambiguous h.reliable (h.policy.trans hpolicy) (by omega), hlength]

/-- Where the newest card is preferred, a rival that is newer is found in place of the chain. -/
theorem current_other (hs : t.Sound S) (hpolicy : k.policy = .preferNewest) {r : CardRow}
    (hr : r ∈ k.rows.strays chain) (hnewer : chain.head.createdAt < r.createdAt) :
    ∃ other : CardChain, other.head.id ≠ chain.head.id ∧ other.head.identity = identity ∧
      current S identity k' = (.ok (some other), k') := by
  have hperm := h.standing_perm hs
  cases hlatest : Timestamp.latest? (·.createdAt) (k'.rows.standing identity) with
  | none =>
    rw [Timestamp.latest?_eq_none_iff.1 hlatest, List.nil_perm] at hperm
    cases hperm
  | some q =>
    obtain ⟨hq, hlast⟩ := Timestamp.latest?_spec hlatest
    have hle := hlast r (hperm.mem_iff.2 (List.mem_cons_of_mem _ hr))
    obtain ⟨hmem, hqi, -⟩ := CardRows.mem_standing.1 hq
    obtain ⟨other, hresolve, -, rfl⟩ := resolve_kept h.reliable hs.regular h.stored.coherent hmem
    have hchoose : k'.policy.choose (·.createdAt) identity (k'.rows.standing identity) =
        .ok (CardRow.ofCard other.head) := by
      rw [h.policy, hpolicy, DuplicatePolicy.choose_preferNewest, hlatest]
      rfl
    refine ⟨other, fun hid => ?_, hqi, ?_⟩
    · -- the head of the chain is earlier than the rival, so it is not the latest card
      obtain ⟨hhead, -⟩ := h.head_mem hs
      have hsame : CardRow.ofCard other.head = CardRow.ofCard chain.head :=
        Table.eq_of_key_eq hmem hhead hid
      rw [hsame] at hle
      exact Int64.not_lt.2 hle hnewer
    · rw [current_of_choice h.reliable hchoose, hresolve]
      rfl

end Keeps

end CardCache

/-! ## What lookups answer -/

namespace Lookup

theorem validate_singleton (hnamed : Text.isBlank identity = false) : validate [identity] = .ok () := by
  refine validate_eq_ok_iff.2 ⟨List.cons_ne_nil _ _, fun i hi => ?_, List.pairwise_singleton _ _⟩
  rw [List.mem_singleton.1 hi]
  exact hnamed

/-- What is served for an identity is fetched, where the directory can be reached. -/
theorem fetch_run (hs : t.Sound S) {d : LookupDesk} (h : d.Settled t)
    (ha : d.link.directory.available = true) (hserves : t.Serves identity chain) :
    ∃ d', fetch identity d = (.ok chain, d') := by
  have hsearch : call (DirectoryLink.search identity) d =
      (.ok [chain], { d with link := d.link.searched }) := by
    rw [call, on_run, DirectoryLink.search_run h.clear, if_pos ha, h.listings,
      hs.current_of_serves hserves]
  have hselect : (lift (d.cache.policy.select identity [chain]) : Action LookupDesk CardChain)
      { d with link := d.link.searched } = (.ok chain, { d with link := d.link.searched }) := rfl
  obtain ⟨rows, hstore, -⟩ := CardCache.storeChain_run h.reliable hs.regular h.coherent hserves.lists
  have hstored : inCache (CardCache.storeChain chain) { d with link := d.link.searched } =
      (.ok (), { d with link := d.link.searched, cache := { d.cache with rows } }) := by
    rw [inCache, on_run, hstore]
  refine ⟨{ d with link := d.link.searched, cache := { d.cache with rows } }, ?_⟩
  rw [fetch, bind_ok hsearch, bind_ok (get_run _), bind_ok hselect, bind_ok hstored]
  rfl

/-- A lookup that passes over the cache finds what is served, where the directory can be reached. -/
theorem reload_run (hs : t.Sound S) {d : LookupDesk} (h : d.Settled t)
    (ha : d.link.directory.available = true) (hserves : t.Serves identity chain) :
    ∃ d', findUser S identity true d = (.ok chain, d') := by
  obtain ⟨d', hfetch⟩ := fetch_run hs h ha hserves
  have husers : findUsers S [identity] true d = (.ok ((FoundCards.ofList []).insert chain), d') := by
    rw [findUsers_of_valid (validate_singleton (hserves.named hs))]
    exact bind_ok hfetch
  have hfound : ((FoundCards.ofList []).insert chain).find? identity = some chain := by
    rw [← hserves.owned]
    exact (Table.find?_insert _ _ _).trans (if_pos rfl)
  refine ⟨d', ?_⟩
  rw [findUser, bind_ok husers, hfound]
  rfl

/-- Both kinds of lookup answer the same from the cache, and change nothing. -/
def Answers (S : CipherSuite) (identity : String) (r : Except Error CardChain) (d : LookupDesk) : Prop :=
  findCachedUser S identity d = (r.map some, d) ∧ findUser S identity false d = (r, d)

/-- Lookups answer what the cache gives for an identity that has a current card. -/
theorem answers_of_current (hnamed : Text.isBlank identity = false) {d : LookupDesk}
    {r : Except Error CardChain} (howned : ∀ chain, r = .ok chain → chain.head.identity = identity)
    (h : CardCache.current S identity d.cache = (r.map some, d.cache)) : Answers S identity r d := by
  have hcached : cached S [identity] d = (r.map fun chain => [chain], d) := by
    rw [cached, inCache, on_run, CardCache.search_singleton, h]
    cases r <;> rfl
  have hvalid := validate_singleton hnamed
  constructor
  · rw [findCachedUser, if_neg (by rw [hnamed]; exact Bool.false_ne_true), map_run, hcached]
    cases r <;> rfl
  · cases r with
    | error e =>
      have husers : findUsers S [identity] false d = (.error e, d) := by
        rw [findUsers_of_valid hvalid]
        exact bind_error hcached
      rw [findUser, bind_error husers]
    | ok chain =>
      have hfound : (FoundCards.ofList [chain]).find? identity = some chain := by
        rw [← howned chain rfl]
        exact (Table.find?_insert _ _ _).trans (if_pos rfl)
      have husers : findUsers S [identity] false d = (.ok (FoundCards.ofList [chain]), d) := by
        rw [findUsers_of_valid hvalid]
        refine (bind_ok hcached).trans ?_
        change fetchMissing [identity] (FoundCards.ofList [chain]) d = _
        rw [fetchMissing, if_pos (by rw [Table.has, hfound]; rfl)]
        rfl
      rw [findUser, bind_ok husers, hfound]
      rfl

end Lookup

end EndToEnd
