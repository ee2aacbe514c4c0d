/-
  What a lookup of several identities gives.

  A lookup takes from the cache what a search finds there, and fetches the cards of the other identities,
  each once and in order. Storing one chain forgets nothing of another, so what was fetched is cached
  whole at the end.

  Proved:
  * `fetch_ok`: what one fetch has done.
  * `fetchEach_ok`: what several have done, one after the other (`Fetched`).
  * `Fetched.whole`: a chain that was fetched is read from the cache as it was served.
  * `fetchMissing_ok`: the identities that are fetched are those without a card so far.
  * `findUsers_ok`: a lookup gives what was found in the cache, followed by what was fetched.
  * `findUsers_isOk_iff`: when it gives cards at all.
-/
import EndToEnd.Proofs.Lookup.Stored

open EndToEnd.Action

namespace EndToEnd

variable {S : CipherSuite} {t : Listings} {d d' : LookupDesk} {identity : String} {chain : CardChain}

/-! ## Found cards as a list -/

/-- Whose cards these are. -/
def CardChain.owners (chains : List CardChain) : List String := chains.map (·.head.identity)

theorem CardChain.owners_append (chains others : List CardChain) :
    owners (chains ++ others) = owners chains ++ owners others := List.map_append

namespace FoundCards

variable {found : FoundCards} {cards : List CardChain}

theorem has_iff : found.has identity = true ↔ identity ∈ CardChain.owners found.rows := by
  rw [Table.has_eq_true_iff, CardChain.owners, List.mem_map]

/-- Cards of identities that have none yet are put behind the others. -/
theorem rows_foldl (hdistinct : (CardChain.owners (found.rows ++ cards)).Nodup) :
    (cards.foldl (fun t c => t.insert c) found).rows = found.rows ++ cards := by
  induction cards generalizing found with
  | nil => rw [List.foldl_nil, List.append_nil]
  | cons c cards ih =>
    have hnew : found.has c.head.identity = false := by
      rw [CardChain.owners_append, List.nodup_append] at hdistinct
      refine Bool.eq_false_iff.2 fun hhas => ?_
      exact hdistinct.2.2 _ (has_iff.1 hhas) _ List.mem_cons_self rfl
    have happend : found.rows ++ c :: cards = (found.insert c).rows ++ cards := by
      rw [Table.rows_insert_of_not_has hnew, List.append_assoc]
      rfl
    rw [happend] at hdistinct ⊢
    exact ih hdistinct

/-- Cards that were found for some of distinct identities make a table of just these. -/
theorem rows_ofList {identities : List String} {p : String → Bool} (hdistinct : identities.Nodup)
    (h : CardChain.owners cards = identities.filter p) : (ofList cards).rows = cards := by
  have hnodup : (CardChain.owners ((.empty : FoundCards).rows ++ cards)).Nodup := by
    rw [Table.rows_empty, List.nil_append, h]
    exact hdistinct.sublist List.filter_sublist
  exact rows_foldl hnodup

end FoundCards

namespace Lookup

/-! ## Fetching -/

/-- A fetch asks once, and stores what is chosen of the answer. -/
theorem fetch_ok (hs : t.Regular S) (h : d.Agrees t) (hrun : fetch identity d = (.ok chain, d')) :
    d.cache.policy.select identity (t.current identity) = .ok chain ∧
      ∃ link rows, d.link.Called 1 link ∧
        CardCache.storeChain chain d.cache = (.ok (), { d.cache with rows }) ∧
        CardRows.Stored t chain.cards d.cache.rows rows ∧
        d' = { d with link, cache := { d.cache with rows } } := by
  rcases d.link.search_cases identity with ⟨e, link, hsearch, -, -⟩ | ⟨link, hsearch, hl⟩
  · have hcall : call (DirectoryLink.search identity) d = (.error e, { d with link }) := by
      rw [call, on_run, hsearch]
    rw [fetch, bind_error hcall] at hrun
    cases hrun
  · have hcall : call (DirectoryLink.search identity) d =
        (.ok (t.current identity), { d with link }) := by
      rw [call, on_run, hsearch, h.listings]
    rw [fetch, bind_ok hcall, bind_ok (get_run _)] at hrun
    obtain ⟨chosen, hchosen, hrun⟩ := of_lift_bind_ok hrun
    have hserves := hs.serves_of_select hchosen
    obtain ⟨rows, hstore, hstored⟩ := CardCache.storeChain_run h.reliable hs h.coherent hserves.lists
    have hcache : inCache (CardCache.storeChain chosen) { d with link } =
        (.ok (), { d with link, cache := { d.cache with rows } }) := by
      rw [inCache, on_run, hstore]
    rw [bind_ok hcache] at hrun
    cases hrun
    exact ⟨hchosen, link, rows, hl, hstore, hstored, rfl⟩

/-- Cards were fetched one after the other: each answer was asked for once, and what was chosen of it was
stored. -/
structure Fetched (t : Listings) (identities : List String) (chains : List CardChain)
    (d d' : LookupDesk) : Prop where
  agrees : d'.Agrees t
  policy : d'.cache.policy = d.cache.policy
  link : d.link.Called identities.length d'.link
  owners : CardChain.owners chains = identities
  chosen : ∀ chain ∈ chains,
    d.cache.policy.select chain.head.identity (t.current chain.head.identity) = .ok chain
  stored : CardRows.Stored t (chains.flatMap CardChain.cards) d.cache.rows d'.cache.rows

namespace Fetched

variable {identities more : List String} {chains others : List CardChain} {d'' : LookupDesk}

theorem nil (h : d.Agrees t) : Fetched t [] [] d d :=
  ⟨h, rfl, .refl d.link, rfl, nofun, .nil h.coherent⟩

theorem single (hs : t.Regular S) (h : d.Agrees t) (hrun : fetch identity d = (.ok chain, d')) :
    Fetched t [identity] [chain] d d' := by
  obtain ⟨hchosen, link, rows, hl, -, hstored, rfl⟩ := fetch_ok hs h hrun
  have howned := (hs.serves_of_select hchosen).owned
  refine ⟨⟨h.reliable.withRows rows, hstored.coherent, hl.listings.trans h.listings⟩, rfl, hl,
    congrArg (fun i => [i]) howned, fun chain' hmem => ?_, ?_⟩
  · rw [List.mem_singleton.1 hmem, howned]
    exact hchosen
  · rw [List.flatMap_singleton]
    exact hstored

theorem append (h : Fetched t identities chains d d') (h' : Fetched t more others d' d'') :
    Fetched t (identities ++ more) (chains ++ others) d d'' where
  agrees := h'.agrees
  policy := h'.policy.trans h.policy
  link := by
    rw [List.length_append]
    exact h.link.trans h'.link
  owners := by rw [CardChain.owners_append, h.owners, h'.owners]
  chosen := by
    intro chain hmem
    rcases List.mem_append.1 hmem with hmem | hmem
    · exact h.chosen chain hmem
    · rw [← h.policy]
      exact h'.chosen chain hmem
  stored := by
    rw [List.flatMap_append]
    exact h.stored.append h'.stored

variable (h : Fetched t identities chains d d')
include h

theorem serves (hs : t.Regular S) (hmem : chain ∈ chains) : t.Serves chain.head.identity chain :=
  hs.serves_of_select (h.chosen chain hmem)

/-- What is served is current. -/
theorem unmarked (hs : t.Regular S) (hmem : chain ∈ chains) : chain.head.outdated = false := by
  obtain ⟨l, hl, hcard, hcurrent⟩ := (h.serves hs hmem).listed
  rw [← hcard]
  exact (hs.isCurrent_iff hl).1 hcurrent

theorem covers (hmem : chain ∈ chains) : ∀ c ∈ chain.cards, d'.cache.rows.Covers c :=
  fun c hc => h.stored.covers c (List.mem_flatMap.2 ⟨chain, hmem, hc⟩)

/-- Every card of a chain that was fetched is cached as it was served. -/
theorem cached (hs : t.Regular S) (hmem : chain ∈ chains) :
    ∀ c ∈ chain.cards, d'.cache.rows.find? c.id = some (CardRow.ofCard c) := by
  intro c hc
  have hcovers := h.covers hmem c hc
  obtain ⟨l, hl, rfl, -⟩ := (h.serves hs hmem).mem hc
  exact h.stored.coherent.find?_listed hs hl hcovers

/-- A chain that was fetched is read from the cache as it was served. -/
theorem whole (hs : t.Regular S) (hmem : chain ∈ chains) :
    CardCache.get S chain.head.id d'.cache = (.ok (some chain), d'.cache) := by
  have hhead := h.cached hs hmem chain.head List.mem_cons_self
  have hresolve := CardCache.resolve_run h.agrees.reliable hs h.agrees.coherent (h.serves hs hmem)
    (h.covers hmem)
  exact CardCache.get_of_resolve h.agrees.reliable (Table.mem_of_find? hhead) hresolve

end Fetched

/-- Fetches the cards of identities one after the other. -/
def fetchEach (identities : List String) : Action LookupDesk (List CardChain) :=
  identities.mapM fetch

theorem fetchEach_cons (identity : String) (identities : List String) :
    fetchEach (identity :: identities) = fetch identity >>= fun chain =>
      fetchEach identities >>= fun chains => pure (chain :: chains) := List.mapM_cons

theorem fetchEach_ok (hs : t.Regular S) (h : d.Agrees t) {identities : List String}
    {chains : List CardChain} (hrun : fetchEach identities d = (.ok chains, d')) :
    Fetched t identities chains d d' := by
  induction identities generalizing d chains with
  | nil =>
    cases hrun
    exact .nil h
  | cons identity identities ih =>
    rw [fetchEach_cons] at hrun
    obtain ⟨chain, d₁, hfetch, hrun⟩ := of_bind_ok hrun
    obtain ⟨others, d₂, hothers, hrun⟩ := of_bind_ok hrun
    cases hrun
    have hfirst := Fetched.single hs h hfetch
    exact hfirst.append (ih hfirst.agrees hothers)

/-! ## Those of whom there is no card yet -/

/-- Those of some identities that own none of the found cards. -/
def missing (found : List CardChain) (identities : List String) : List String :=
  identities.filter fun i => i ∉ CardChain.owners found

section Missing

variable {found : List CardChain} {identities : List String}

theorem missing_cons_of_owned (h : identity ∈ CardChain.owners found) :
    missing found (identity :: identities) = missing found identities :=
  List.filter_cons_of_neg (by simpa using h)

theorem missing_cons_of_not_owned (h : identity ∉ CardChain.owners found) :
    missing found (identity :: identities) = identity :: missing found identities :=
  List.filter_cons_of_pos (decide_eq_true h)

/-- Who else has a card does not matter. -/
theorem missing_append_singleton (h : chain.head.identity ∉ identities) :
    missing (found ++ [chain]) identities = missing found identities := by
  refine List.filter_congr fun i hi => ?_
  have hne : i ≠ chain.head.identity := by
    rintro rfl
    exact h hi
  have howners : CardChain.owners [chain] = [chain.head.identity] := rfl
  rw [CardChain.owners_append, howners]
  simp [hne]

/-- The owners of cards that were found for some of the identities, and the missing ones, are all
identities. -/
theorem perm_missing {p : String → Bool} (h : CardChain.owners found = identities.filter p) :
    (CardChain.owners found ++ missing found identities).Perm identities := by
  have hmissing : missing found identities = identities.filter fun i => !p i := by
    refine List.filter_congr fun i hi => ?_
    rw [h, Bool.eq_iff_iff]
    simp [hi]
  rw [hmissing, h]
  exact List.filter_append_perm p identities

end Missing

/-! ## Lookups -/

/-- What is added to the found cards was fetched for those identities that had none. -/
theorem fetchMissing_ok (hs : t.Regular S) (h : d.Agrees t) {identities : List String}
    (hdistinct : identities.Nodup) {found found' : FoundCards}
    (hrun : fetchMissing identities found d = (.ok found', d')) :
    ∃ fetched, fetchEach (missing found.rows identities) d = (.ok fetched, d') ∧
      found'.rows = found.rows ++ fetched := by
  induction identities generalizing found d with
  | nil =>
    cases hrun
    exact ⟨[], rfl, (List.append_nil _).symm⟩
  | cons identity identities ih =>
    obtain ⟨hnew, hothers⟩ := List.nodup_cons.1 hdistinct
    rw [fetchMissing] at hrun
    by_cases hhas : found.has identity = true
    · rw [if_pos hhas] at hrun
      rw [missing_cons_of_owned (FoundCards.has_iff.1 hhas)]
      exact ih h hothers hrun
    · rw [if_neg hhas] at hrun
      obtain ⟨chain, d₁, hfetch, hrun⟩ := of_bind_ok hrun
      have hfirst := Fetched.single hs h hfetch
      obtain ⟨fetched, hfetched, hrows⟩ := ih hfirst.agrees hothers hrun
      obtain rfl : chain.head.identity = identity := List.head_eq_of_cons_eq hfirst.owners
      have hinsert := Table.rows_insert_of_not_has (Bool.eq_false_iff.2 hhas)
      rw [hinsert, missing_append_singleton hnew] at hfetched
      rw [FoundCards.has_iff] at hhas
      refine ⟨chain :: fetched, ?_, ?_⟩
      · rw [missing_cons_of_not_owned hhas, fetchEach_cons, bind_ok hfetch, bind_ok hfetched]
        rfl
      · rw [hrows, hinsert, List.append_assoc]
        rfl

/-- The cards that are known before any are fetched: those that a search finds in the cache, or none if
the cache is passed over. -/
def Known (S : CipherSuite) (identities : List String) (reload : Bool) (k : CardCache)
    (known : List CardChain) : Prop :=
  if reload then known = [] else CardCache.search S identities k = (.ok known, k)

section Known

variable {identities : List String} {reload : Bool} {known : List CardChain} {found : FoundCards}

/-- What is known is current cards of those identities that have one in the cache. -/
theorem Known.owners {k : CardCache} (h : Known S identities reload k known) (hk : k.Reliable)
    (hread : k.rows.Readable S) (hdistinct : identities.Nodup) :
    CardChain.owners known = identities.filter (fun i => !reload && k.rows.hasCurrent i) ∧
      ∀ chain ∈ known, chain.head.outdated = false := by
  cases reload with
  | true =>
    obtain rfl : known = [] := h
    exact ⟨(List.filter_eq_nil_iff.2 fun _ _ => Bool.false_ne_true).symm, List.forall_mem_nil _⟩
  | false =>
    obtain ⟨result, hsearch, hends⟩ := CardCache.searchFrom_ends hk hread [] identities
    obtain ⟨rfl, -⟩ := Prod.mk.inj (hsearch.symm.trans h)
    rw [unseen_nil, Text.eraseDups_of_nodup hdistinct] at hends
    cases hends with
    | found _ _ hidentities htakes =>
      refine ⟨hidentities, fun chain hchain => ?_⟩
      exact (CardRows.mem_standing.1 (htakes chain hchain).mem_standing).2.2

/-- A lookup that gives cards was asked for fit identities, and has searched the cache if it was not to
pass it over. -/
theorem known_of_findUsers (hs : t.Regular S) (h : d.Agrees t)
    (hrun : findUsers S identities reload d = (.ok found, d')) :
    validate identities = .ok () ∧ ∃ known, Known S identities reload d.cache known := by
  obtain ⟨_, hvalid, hrun⟩ := of_lift_bind_ok hrun
  refine ⟨hvalid, ?_⟩
  cases reload with
  | true => exact ⟨[], rfl⟩
  | false =>
    obtain ⟨known, d₁, hcached, -⟩ := of_bind_ok hrun
    rw [cached, inCache, on_run] at hcached
    have hkept := CardCache.searchFrom_kept h.reliable hs h.coherent [] identities
    exact ⟨known, Prod.ext (Prod.mk.inj hcached).1 hkept⟩

/-- Once it is known what the cache has, the rest is fetched. -/
theorem findUsers_of_known (hvalid : validate identities = .ok ())
    (h : Known S identities reload d.cache known) :
    findUsers S identities reload d = fetchMissing identities (FoundCards.ofList known) d := by
  rw [findUsers_of_valid hvalid]
  cases reload with
  | true =>
    obtain rfl : known = [] := h
    rfl
  | false =>
    have hsearch : CardCache.search S identities d.cache = (.ok known, d.cache) := h
    have hcached : cached S identities d = (.ok known, d) := by
      rw [cached, inCache, on_run, hsearch]
    exact bind_ok hcached

end Known

/-- How a lookup came to what it gives: some cards were known, and the others were fetched. -/
structure Answered (S : CipherSuite) (t : Listings) (identities : List String) (reload : Bool)
    (d d' : LookupDesk) (found : FoundCards) (known fetched : List CardChain) : Prop where
  search : Known S identities reload d.cache known
  fetches : fetchEach (missing known identities) d = (.ok fetched, d')
  effect : Fetched t (missing known identities) fetched d d'
  rows : found.rows = known ++ fetched
  keys : (CardChain.owners found.rows).Perm identities
  unmarked : ∀ chain ∈ found.rows, chain.head.outdated = false

/-- A lookup gives what was known, followed by what was fetched. -/
theorem findUsers_ok (hs : t.Regular S) (h : d.Agrees t) {identities : List String} {reload : Bool}
    {found : FoundCards} (hrun : findUsers S identities reload d = (.ok found, d')) :
    ∃ known fetched, Answered S t identities reload d d' found known fetched := by
  obtain ⟨hvalid, known, hknown⟩ := known_of_findUsers hs h hrun
  obtain ⟨-, -, hdistinct⟩ := validate_eq_ok_iff.1 hvalid
  obtain ⟨howners, hcurrent⟩ := hknown.owners h.reliable (h.coherent.readable hs) hdistinct
  rw [findUsers_of_known hvalid hknown] at hrun
  obtain ⟨fetched, hfetches, hfound⟩ := fetchMissing_ok hs h hdistinct hrun
  rw [FoundCards.rows_ofList hdistinct howners] at hfetches hfound
  have heffect := fetchEach_ok hs h hfetches
  refine ⟨known, fetched, hknown, hfetches, heffect, hfound, ?_, fun chain hmem => ?_⟩
  · rw [hfound, CardChain.owners_append, heffect.owners]
    exact perm_missing howners
  · rw [hfound] at hmem
    rcases List.mem_append.1 hmem with hmem | hmem
    · exact hcurrent chain hmem
    · exact heffect.unmarked hs hmem

/-- What is missing is fetched, where the directory can be reached and serves it. -/
theorem fetchMissing_run (hs : t.Sound S) (h : d.Settled t) {identities : List String}
    (hdistinct : identities.Nodup) {found : FoundCards}
    (hserved : ∀ i ∈ missing found.rows identities,
      d.link.directory.available = true ∧ ∃ chain, t.Serves i chain) :
    ∃ found' d', fetchMissing identities found d = (.ok found', d') := by
  induction identities generalizing found d with
  | nil => exact ⟨found, d, rfl⟩
  | cons identity identities ih =>
    obtain ⟨hnew, hothers⟩ := List.nodup_cons.1 hdistinct
    rw [fetchMissing]
    by_cases hhas : found.has identity = true
    · rw [missing_cons_of_owned (FoundCards.has_iff.1 hhas)] at hserved
      rw [if_pos hhas]
      exact ih h hothers hserved
    · rw [missing_cons_of_not_owned (mt FoundCards.has_iff.2 hhas)] at hserved
      obtain ⟨ha, chain, hserves⟩ := hserved identity List.mem_cons_self
      obtain ⟨d₁, hfetch⟩ := fetch_run hs h ha hserves
      have hfirst := Fetched.single hs.regular h.agrees hfetch
      obtain rfl : chain.head.identity = identity := hserves.owned
      rw [if_neg hhas, bind_ok hfetch]
      refine ih (hfirst.agrees.settled (hfirst.link.clear h.clear)) hothers fun i hi => ?_
      rw [Table.rows_insert_of_not_has (Bool.eq_false_iff.2 hhas), missing_append_singleton hnew] at hi
      rw [hfirst.link.available]
      exact hserved i (List.mem_cons_of_mem _ hi)

/-- Nothing is fetched where the directory cannot be reached. -/
theorem available_of_fetchEach (h : d.Settled t) {identities : List String} {chains : List CardChain}
    (hrun : fetchEach identities d = (.ok chains, d')) (hsome : identities ≠ []) :
    d.link.directory.available = true := by
  refine Decidable.by_contra fun hno => ?_
  obtain ⟨identity, others, rfl⟩ := List.exists_cons_of_ne_nil hsome
  rw [fetchEach_cons] at hrun
  obtain ⟨chain, d₁, hfetch, -⟩ := of_bind_ok hrun
  obtain ⟨cards, d₂, hsearch, -⟩ := of_bind_ok hfetch
  rw [call, on_run, DirectoryLink.search_run h.clear, if_neg hno] at hsearch
  cases hsearch

/-- What was missing can be reached, and is served. -/
theorem Answered.served (h : d.Settled t) {identities : List String} {reload : Bool}
    {found : FoundCards} {known fetched : List CardChain}
    (ha : Answered S t identities reload d d' found known fetched) :
    ∀ i ∈ missing known identities, d.link.directory.available = true ∧ t.current i ≠ [] := by
  intro i hi
  refine ⟨available_of_fetchEach h ha.fetches (List.ne_nil_of_mem hi), fun hnone => ?_⟩
  rw [← ha.effect.owners] at hi
  obtain ⟨chain, hmem, rfl⟩ := List.mem_map.1 hi
  have hchosen := ha.effect.chosen chain hmem
  rw [hnone] at hchosen
  cases hchosen

/-- When a lookup gives cards: the identities are fit, the cache is passed over or can be searched, and
the directory can be reached and serves what is missing then. -/
theorem findUsers_isOk_iff (hs : t.Sound S) (h : d.Settled t) {identities : List String} {reload : Bool} :
    (findUsers S identities reload d).1.isOk = true ↔ validate identities = .ok () ∧
      ∃ known, Known S identities reload d.cache known ∧ ∀ i ∈ missing known identities,
        d.link.directory.available = true ∧ t.current i ≠ [] := by
  constructor
  · intro hok
    obtain ⟨found, d', hrun⟩ := run_of_isOk hok
    obtain ⟨hvalid, -⟩ := known_of_findUsers hs.regular h.agrees hrun
    obtain ⟨known, fetched, ha⟩ := findUsers_ok hs.regular h.agrees hrun
    exact ⟨hvalid, known, ha.search, ha.served h⟩
  · rintro ⟨hvalid, known, hknown, hserved⟩
    obtain ⟨-, -, hdistinct⟩ := validate_eq_ok_iff.1 hvalid
    obtain ⟨howners, -⟩ := hknown.owners h.reliable (h.coherent.readable hs.regular) hdistinct
    have hserves : ∀ i ∈ missing (FoundCards.ofList known).rows identities,
        d.link.directory.available = true ∧ ∃ chain, t.Serves i chain := by
      intro i hi
      rw [FoundCards.rows_ofList hdistinct howners] at hi
      obtain ⟨ha, hsome⟩ := hserved i hi
      rcases hs.current_eq i with ⟨hnone, -⟩ | ⟨chain, -, hchain⟩
      · exact absurd hnone hsome
      · exact ⟨ha, chain, hchain⟩
    obtain ⟨found, d', hrun⟩ := fetchMissing_run hs h hdistinct hserves
    rw [findUsers_of_known hvalid hknown, hrun]
    rfl

end Lookup

end EndToEnd
