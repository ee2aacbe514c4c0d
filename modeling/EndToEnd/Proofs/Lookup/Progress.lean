/-
  How far an update comes.

  An update asks the directory which of the cached current cards it no longer serves, marks these, and
  stores what it serves in their place, one identity after the other. It ends early if a call fails or
  if none of several current cards is chosen: then some identities are brought up to date, and all
  others are as they were. `refresh_cases` tells it of one identity and `refreshAll_cases` of several,
  with the cards that are stored in all; the marks and the current cards of the cache follow from which
  cards these are.

  Proved:
  * `update_progress`: an update goes through the stale identities in order (`Progress`), until it ends
    in one of three ways (`Outcome`).
  * `Progress.not_stale`, `Progress.find?_head`: what has become of the identities that it came to.
-/
import EndToEnd.Proofs.Lookup.Desk

open EndToEnd.Action

namespace EndToEnd

variable {S : CipherSuite} {t : Listings} {d : LookupDesk} {identity : String} {listening : Bool}

namespace Listings

/-- Whether an identity has a current card. -/
def hasCurrent (t : Listings) (identity : String) : Bool := !(t.current identity).isEmpty

theorem hasCurrent_eq_true : t.hasCurrent identity = true ↔ t.current identity ≠ [] := by
  rw [hasCurrent, Bool.not_eq_true', List.isEmpty_eq_false_iff]

theorem hasCurrent_eq_false : t.hasCurrent identity = false ↔ t.current identity = [] := by
  rw [hasCurrent, Bool.not_eq_false', List.isEmpty_iff]

theorem exists_withdrawn_iff {id : String} : ((t.find? id).any fun l => !l.isCurrent) = true ↔
    ∃ l ∈ t.rows, l.id = id ∧ l.isCurrent = false := by
  rw [Option.any_eq_true]
  refine exists_congr fun l => ?_
  rw [Table.find?_eq_some_iff, Bool.not_eq_true', and_assoc]

/-- The cards of the chain that a policy chooses of those that the directory serves for an identity. -/
def chosen (t : Listings) (policy : DuplicatePolicy) (identity : String) : List Card :=
  match policy.select identity (t.current identity) with
  | .ok chain => chain.cards
  | .error _ => []

variable {policy : DuplicatePolicy} {chain : CardChain}

theorem chosen_of_select (h : policy.select identity (t.current identity) = .ok chain) :
    t.chosen policy identity = chain.cards := by
  rw [chosen, h]

theorem chosen_of_none (h : t.current identity = []) : t.chosen policy identity = [] := by
  rw [chosen, h]
  rfl

theorem mem_chosen {c : Card} : c ∈ t.chosen policy identity ↔
    ∃ chain, policy.select identity (t.current identity) = .ok chain ∧ c ∈ chain.cards := by
  unfold chosen
  cases policy.select identity (t.current identity) with
  | error e =>
    constructor
    · exact fun hc => absurd hc List.not_mem_nil
    · rintro ⟨chain, h, -⟩
      cases h
  | ok chain =>
    constructor
    · exact fun hc => ⟨chain, rfl, hc⟩
    · rintro ⟨chain', h, hc⟩
      cases h
      exact hc

/-- Of the cards of a chain that is chosen, the one without mark is current. -/
theorem Regular.current_of_chosen (hs : t.Regular S) {c : Card} (hc : c ∈ t.chosen policy identity)
    (ho : c.outdated = false) : ∃ l ∈ t.rows, l.isCurrent = true ∧ l.card = c := by
  obtain ⟨chain, hchain, hc⟩ := mem_chosen.1 hc
  have hserves := hs.serves_of_select hchain
  rcases List.mem_cons.1 hc with rfl | hc
  · obtain ⟨l, hl, hcard, hcurrent⟩ := hserves.listed
    exact ⟨l, hl, hcurrent, hcard⟩
  · obtain ⟨l, -, -, -, -, ho'⟩ := hserves.descends.mem hc
    rw [ho] at ho'
    cases ho'

end Listings

/-- A genuine card is settled by its row. -/
theorem CardRow.ofCard_inj {c d : Card} (hc : c.Genuine S) (hd : d.Genuine S)
    (h : CardRow.ofCard c = CardRow.ofCard d) : c = d := by
  have hrow := CardRow.toCard_ofCard hc
  rw [h, CardRow.toCard_ofCard hd] at hrow
  exact (Except.ok.inj hrow).symm

/-- The identities with a cached current card that the directory no longer serves, in order. -/
def CardRows.stale (rows : CardRows) (t : Listings) : List String :=
  Lookup.inOrder ((rows.rows.filter fun r =>
    !r.outdated && (t.find? r.id).any fun l => !l.isCurrent).map (·.identity))

theorem CardRows.mem_stale {rows : CardRows} : identity ∈ rows.stale t ↔
    ∃ r ∈ rows.ofIdentity identity, r.outdated = false ∧ ∃ l ∈ t.rows, l.id = r.id ∧
      l.isCurrent = false := by
  rw [stale, Lookup.mem_inOrder, List.mem_map]
  refine exists_congr fun r => ?_
  rw [List.mem_filter, mem_ofIdentity, Bool.and_eq_true, Bool.not_eq_true',
    Listings.exists_withdrawn_iff, and_right_comm, and_assoc]

namespace Lookup

/-! ## The cards to be replaced -/

/-- The cached cards with the given ids are read, and reading changes nothing. -/
theorem cachedHeads_run (hs : t.Regular S) (h : d.Agrees t) (ids : List String) :
    ∃ stale, cachedHeads S ids d = (.ok stale, d) ∧
      ∀ c, c ∈ stale ↔ c.id ∈ ids ∧ t.Lists c ∧ CardRow.ofCard c ∈ d.cache.rows.rows := by
  induction ids with
  | nil =>
    refine ⟨[], rfl, fun c => ?_⟩
    constructor
    · exact nofun
    · exact fun hc => absurd hc.1 List.not_mem_nil
  | cons id ids ih =>
    obtain ⟨others, hothers, hmem⟩ := ih
    rw [cachedHeads]
    rcases CardCache.get_kept h.reliable hs h.coherent id with ⟨hf, hget⟩ | ⟨chain, hget, hlists, hf⟩
    · have hcall : inCache (CardCache.get S id) d = (.ok none, d) := by
        rw [inCache, on_run, hget]
      refine ⟨others, ?_, fun c => ?_⟩
      · rw [bind_ok hcall, bind_ok hothers]
        rfl
      · rw [hmem, List.mem_cons]
        constructor
        · intro hc
          exact ⟨.inr hc.1, hc.2⟩
        · rintro ⟨rfl | hid, hlists, hrow⟩
          · exact absurd rfl (Table.find?_eq_none_iff.1 hf _ hrow)
          · exact ⟨hid, hlists, hrow⟩
    · have hcall : inCache (CardCache.get S id) d = (.ok (some chain), d) := by
        rw [inCache, on_run, hget]
      obtain ⟨hrow, hid⟩ := Table.find?_eq_some_iff.1 hf
      refine ⟨chain.head :: others, ?_, fun c => ?_⟩
      · rw [bind_ok hcall, bind_ok hothers]
        rfl
      · rw [List.mem_cons, hmem, List.mem_cons]
        constructor
        · rintro (rfl | ⟨hid', hc⟩)
          · exact ⟨.inl hid, hlists, hrow⟩
          · exact ⟨.inr hid', hc⟩
        · rintro ⟨hid' | hid', hlists', hrow'⟩
          · left
            have hsame : CardRow.ofCard c = CardRow.ofCard chain.head :=
              Table.eq_of_key_eq hrow' hrow (hid'.trans hid.symm)
            exact CardRow.ofCard_inj (hlists'.genuine hs) (hlists.genuine hs) hsame
          · exact .inr ⟨hid', hlists', hrow'⟩

/-- The ids that the directory reports are those whose cards it lists and does not serve. -/
theorem mem_outdated {ids : List String} {id : String} :
    id ∈ t.outdated ids ↔ id ∈ ids ∧ ∃ l ∈ t.rows, l.id = id ∧ l.isCurrent = false := by
  rw [Listings.outdated, List.mem_filter]
  exact and_congr_right fun _ => Listings.exists_withdrawn_iff

/-- The identities of the cached cards that the directory reports are the stale ones. -/
theorem stale_of_heads {rows : CardRows} (h : rows.Coherent t) {stale : List Card}
    (hstale : ∀ c, c ∈ stale ↔ c.id ∈ t.outdated rows.currentIds ∧ t.Lists c ∧
      CardRow.ofCard c ∈ rows.rows) : inOrder (stale.map (·.identity)) = rows.stale t := by
  refine Text.eq_of_pairwise_lt (pairwise_inOrder _) (pairwise_inOrder _) fun identity => ?_
  rw [mem_inOrder, List.mem_map, CardRows.mem_stale]
  constructor
  · rintro ⟨c, hc, rfl⟩
    obtain ⟨hreported, -, hrow⟩ := (hstale c).1 hc
    obtain ⟨hcached, hno⟩ := mem_outdated.1 hreported
    obtain ⟨r, hr, hid, ho⟩ := CardRows.mem_currentIds.1 hcached
    obtain rfl := Table.eq_of_key_eq hr hrow hid
    exact ⟨_, CardRows.mem_ofIdentity.2 ⟨hr, rfl⟩, ho, hno⟩
  · rintro ⟨r, hr, ho, hno⟩
    obtain ⟨hr, hi⟩ := CardRows.mem_ofIdentity.1 hr
    obtain ⟨c, hlists, rfl⟩ := h r hr
    have hcached := CardRows.mem_currentIds.2 ⟨_, hr, rfl, ho⟩
    exact ⟨c, (hstale c).2 ⟨mem_outdated.2 ⟨hcached, hno⟩, hlists, hr⟩, hi⟩

/-! ## Refreshing -/

/-- The cards that are stored to refresh an identity: the stale ones, marked, and what is chosen. -/
def answer (t : Listings) (policy : DuplicatePolicy) (stale : List Card) (identity : String) :
    List Card :=
  ((stale.filter fun c => c.identity = identity).map fun c => c.marked true) ++
    t.chosen policy identity

theorem identity_of_answer (hs : t.Regular S) {policy : DuplicatePolicy} {stale : List Card} {c : Card}
    (hc : c ∈ answer t policy stale identity) : c.identity = identity := by
  rcases List.mem_append.1 hc with hc | hc
  · obtain ⟨s, hs, rfl⟩ := List.mem_map.1 hc
    exact of_decide_eq_true (List.mem_filter.1 hs).2
  · obtain ⟨chain, hchain, hc⟩ := Listings.mem_chosen.1 hc
    obtain ⟨l, -, -, howned⟩ := (hs.serves_of_select hchain).mem hc
    exact howned

theorem marked_mem_answer {policy : DuplicatePolicy} {stale : List Card} {c : Card} (hc : c ∈ stale) :
    c.marked true ∈ answer t policy stale c.identity :=
  List.mem_append_left _ (List.mem_map.2 ⟨c, List.mem_filter.2 ⟨hc, decide_eq_true rfl⟩, rfl⟩)

/-- A card that is stored without a mark is one that the directory serves. -/
theorem current_of_answer (hs : t.Regular S) {policy : DuplicatePolicy} {stale : List Card} {c : Card}
    (hc : c ∈ answer t policy stale identity) (ho : c.outdated = false) :
    ∃ l ∈ t.rows, l.isCurrent = true ∧ l.card = c := by
  rcases List.mem_append.1 hc with hmarked | hchosen
  · obtain ⟨s, -, rfl⟩ := List.mem_map.1 hmarked
    cases ho
  · exact hs.current_of_chosen hchosen ho

/-- The identities that are reported once the answers for some have come. -/
def reports (t : Listings) (listening : Bool) (done : List String) : List String :=
  if listening then done.filter t.hasCurrent else []

@[simp] theorem reports_nil (t : Listings) (listening : Bool) : reports t listening [] = [] := by
  cases listening <;> rfl

theorem reports_singleton (t : Listings) (listening : Bool) (identity : String) :
    reports t listening [identity] =
      if listening && t.hasCurrent identity then [identity] else [] := by
  rw [reports, List.filter_cons, List.filter_nil]
  cases listening <;> rfl

theorem reports_append (t : Listings) (listening : Bool) (done more : List String) :
    reports t listening (done ++ more) = reports t listening done ++ reports t listening more := by
  cases listening with
  | true => exact List.filter_append _ _
  | false => rfl

/-- What refreshing has done to a desk once the answers for some identities have come: some searches
were answered, cards were stored, and identities were reported. -/
structure Refreshed (t : Listings) (listening : Bool) (stale : List Card) (done : List String) (n : Nat)
    (d d' : LookupDesk) : Prop where
  agrees : d'.Agrees t
  policy : d'.cache.policy = d.cache.policy
  link : d.link.Called n d'.link
  decided : ∀ identity ∈ done, t.hasCurrent identity = true →
    ∃ chain, d.cache.policy.select identity (t.current identity) = .ok chain
  stored : CardRows.Stored t (done.flatMap (answer t d.cache.policy stale)) d.cache.rows d'.cache.rows
  reported : d'.reported = d.reported ++ reports t listening done

/-- Calls were made, but nothing was stored. -/
theorem Refreshed.called (h : d.Agrees t) (listening : Bool) (stale : List Card) {n : Nat}
    {link : DirectoryLink} (hl : d.link.Called n link) :
    Refreshed t listening stale [] n d { d with link } where
  agrees := h.called hl
  policy := rfl
  link := hl
  decided := nofun
  stored := .nil h.coherent
  reported := by rw [reports_nil, List.append_nil]

/-- The answer for one identity was stored and reported. -/
theorem Refreshed.single (h : d.Agrees t) {stale : List Card} {d' : LookupDesk} {rows : CardRows}
    (hcache : d'.cache = { d.cache with rows }) (hl : d.link.Called 1 d'.link)
    (hdecided : t.hasCurrent identity = true →
      ∃ chain, d.cache.policy.select identity (t.current identity) = .ok chain)
    (hstored : CardRows.Stored t (answer t d.cache.policy stale identity) d.cache.rows rows)
    (hreported : d'.reported = d.reported ++ reports t listening [identity]) :
    Refreshed t listening stale [identity] 1 d d' where
  agrees := by
    refine ⟨?_, ?_, hl.listings.trans h.listings⟩
    · rw [hcache]
      exact h.reliable.withRows rows
    · rw [hcache]
      exact hstored.coherent
  policy := by rw [hcache]
  link := hl
  decided := by
    intro other hother
    rw [List.mem_singleton.1 hother]
    exact hdecided
  stored := by
    rw [hcache, List.flatMap_singleton]
    exact hstored
  reported := hreported

theorem Refreshed.trans {d' d'' : LookupDesk} {m n : Nat} {stale : List Card} {done more : List String}
    (h : Refreshed t listening stale done m d d') (h' : Refreshed t listening stale more n d' d'') :
    Refreshed t listening stale (done ++ more) (m + n) d d'' where
  agrees := h'.agrees
  policy := h'.policy.trans h.policy
  link := h.link.trans h'.link
  decided := by
    intro identity hi
    rcases List.mem_append.1 hi with hi | hi
    · exact h.decided identity hi
    · rw [← h.policy]
      exact h'.decided identity hi
  stored := by
    rw [List.flatMap_append]
    exact h.stored.append (h.policy ▸ h'.stored)
  reported := by rw [h'.reported, h.reported, List.append_assoc, reports_append]

/-- How refreshing some identities ends: the answers for those in `done` have come. -/
inductive Outcome (t : Listings) (d : LookupDesk) (identities : List String) :
    (done : List String) → (searches : Nat) → Except Error (List String) → Prop where
  /-- All answers have come. -/
  | finished :
      Outcome t d identities identities identities.length (.ok (identities.filter t.hasCurrent))
  /-- A call to the directory failed. -/
  | interrupted {done : List String} {e : Error} (first : done <+: identities)
      (raised : d.link.Raises e) : Outcome t d identities done done.length (.error e)
  /-- The next identity has current cards of which none is chosen. -/
  | undecided {done : List String} {identity : String} {e : Error}
      (first : done ++ [identity] <+: identities) (some : t.hasCurrent identity = true)
      (refused : d.cache.policy.select identity (t.current identity) = .error e) :
      Outcome t d identities done (done.length + 1) (.error e)

theorem Outcome.first {identities done : List String} {n : Nat} {r : Except Error (List String)}
    (h : Outcome t d identities done n r) : done <+: identities := by
  cases h with
  | finished => exact List.prefix_rfl
  | interrupted first _ => exact first
  | undecided first _ _ => exact (List.prefix_append _ _).trans first

/-- A call was made before. -/
theorem Outcome.of_called {d' : LookupDesk} {identities done : List String} {m n : Nat}
    {r : Except Error (List String)} (h : Outcome t d' identities done n r)
    (hl : d.link.Called m d'.link) (hp : d'.cache.policy = d.cache.policy) :
    Outcome t d identities done n r := by
  cases h with
  | finished => exact .finished
  | interrupted first raised => exact .interrupted first (hl.raises raised)
  | undecided first some refused => exact .undecided first some (hp ▸ refused)

/-- Another identity was refreshed before. -/
theorem Outcome.cons {identities done : List String} {n : Nat} {r : Except Error (List String)}
    (h : Outcome t d identities done n r) (identity : String) :
    Outcome t d (identity :: identities) (identity :: done) (n + 1)
      (r.map fun others => if t.hasCurrent identity then identity :: others else others) := by
  cases h with
  | finished =>
    have hall : Outcome t d (identity :: identities) _ _ _ := .finished
    rw [List.filter_cons] at hall
    exact hall
  | interrupted first raised => exact .interrupted ((List.prefix_cons_inj identity).2 first) raised
  | undecided first some refused =>
    exact .undecided ((List.prefix_cons_inj identity).2 first) some refused

/-- The stale cards of an identity are stored as replaced. -/
theorem mark_run (hs : t.Regular S) (h : d.Agrees t) (identity : String) {stale : List Card}
    (hstale : ∀ c ∈ stale, t.Lists (c.marked true)) :
    ∃ rows, inCache (each (fun c => CardCache.store { c with outdated := true })
          (stale.filter fun c => c.identity = identity)) d =
        (.ok (), { d with cache := { d.cache with rows } }) ∧
      CardRows.Stored t ((stale.filter fun c => c.identity = identity).map fun c => c.marked true)
        d.cache.rows rows := by
  have hmarked : ∀ c ∈ (stale.filter fun c => c.identity = identity).map fun c => c.marked true,
      t.Lists c := by
    intro c hc
    obtain ⟨s, hsm, rfl⟩ := List.mem_map.1 hc
    exact hstale s (List.mem_filter.1 hsm).1
  obtain ⟨rows, hflag, hflagged⟩ := CardCache.each_store_run h.reliable hs h.coherent hmarked
  rw [each_map] at hflag
  refine ⟨rows, ?_, hflagged⟩
  rw [inCache, on_run]
  exact congrArg (fun r => (r.1, { d with cache := r.2 })) hflag

/-- The directory serves nothing for an identity: its stale cards are stored as replaced. -/
theorem refresh_none (hs : t.Regular S) (h : d.Agrees t) (listening : Bool) {stale : List Card}
    (hstale : ∀ c ∈ stale, t.Lists (c.marked true)) {link : DirectoryLink}
    (hsearch : call (DirectoryLink.search identity) d = (.ok (t.current identity), { d with link }))
    (hl : d.link.Called 1 link) (hnone : t.current identity = []) :
    ∃ d', refresh listening identity (stale.filter fun c => c.identity = identity) d =
        (.ok false, d') ∧ Refreshed t listening stale [identity] 1 d d' := by
  obtain ⟨rows, hmark, hmarked⟩ := mark_run hs (h.called hl) identity hstale
  have hno := Listings.hasCurrent_eq_false.2 hnone
  rw [refresh, bind_ok hsearch, bind_ok (get_run _)]
  dsimp only
  rw [if_pos (List.isEmpty_iff.2 hnone), bind_ok (pure_run _ _), bind_ok hmark]
  refine ⟨_, rfl, .single h rfl hl (fun hyes => ?_) ?_ ?_⟩
  · rw [hno] at hyes
    cases hyes
  · rw [answer, Listings.chosen_of_none hnone, List.append_nil]
    exact hmarked
  · rw [reports_singleton, hno, Bool.and_false]
    exact (List.append_nil _).symm

/-- One of the cards that the directory serves is chosen: it is stored after the stale ones. -/
theorem refresh_chosen (hs : t.Regular S) (h : d.Agrees t) (listening : Bool) {stale : List Card}
    (hstale : ∀ c ∈ stale, t.Lists (c.marked true)) {link : DirectoryLink}
    (hsearch : call (DirectoryLink.search identity) d = (.ok (t.current identity), { d with link }))
    (hl : d.link.Called 1 link) (hsome : t.current identity ≠ []) {chain : CardChain}
    (hselect : d.cache.policy.select identity (t.current identity) = .ok chain) :
    ∃ d', refresh listening identity (stale.filter fun c => c.identity = identity) d =
        (.ok true, d') ∧ Refreshed t listening stale [identity] 1 d d' := by
  obtain ⟨rows, hmark, hmarked⟩ := mark_run hs (h.called hl) identity hstale
  obtain ⟨rows', hstore, hstored⟩ := CardCache.storeChain_run (h.reliable.withRows rows) hs
    hmarked.coherent (hs.serves_of_select hselect).lists
  have hchain : inCache (CardCache.storeChain chain) ⟨{ d.cache with rows }, link, d.reported⟩ =
      (.ok (), ⟨{ d.cache with rows := rows' }, link, d.reported⟩) := by
    rw [inCache, on_run, hstore]
  have hall : CardRows.Stored t (answer t d.cache.policy stale identity) d.cache.rows rows' := by
    rw [answer, Listings.chosen_of_select hselect]
    exact hmarked.append hstored
  have hreports : reports t listening [identity] = if listening then [identity] else [] := by
    rw [reports_singleton, Listings.hasCurrent_eq_true.2 hsome, Bool.and_true]
  have hchoice : (some <$> lift (.ok chain) : Action LookupDesk (Option CardChain)) { d with link } =
      (.ok (some chain), { d with link }) := rfl
  rw [refresh, bind_ok hsearch, bind_ok (get_run _)]
  dsimp only
  rw [if_neg (by rw [List.isEmpty_iff]; exact hsome), hselect, bind_ok hchoice, bind_ok hmark]
  dsimp only
  rw [bind_ok hchain]
  cases listening with
  | true => exact ⟨_, rfl, .single h rfl hl (fun _ => ⟨chain, hselect⟩) hall (by rw [hreports]; rfl)⟩
  | false =>
    refine ⟨_, rfl, .single h rfl hl (fun _ => ⟨chain, hselect⟩) hall ?_⟩
    rw [hreports]
    exact (List.append_nil _).symm

/-- Refreshing an identity fails and stores nothing; or it stores the stale cards as replaced and then
what is chosen of what the directory serves. -/
theorem refresh_cases (hs : t.Regular S) (h : d.Agrees t) (listening : Bool) (identity : String)
    {stale : List Card} (hstale : ∀ c ∈ stale, t.Lists (c.marked true)) :
    (∃ n e d', refresh listening identity (stale.filter fun c => c.identity = identity) d =
        (.error e, d') ∧ Refreshed t listening stale [] n d d' ∧
          Outcome t d [identity] [] n (.error e)) ∨
      ∃ d', refresh listening identity (stale.filter fun c => c.identity = identity) d =
          (.ok (t.hasCurrent identity), d') ∧ Refreshed t listening stale [identity] 1 d d' := by
  rcases d.link.search_cases identity with ⟨e, link, hrun, hl, hraised⟩ | ⟨link, hrun, hl⟩
  · have hsearch : call (DirectoryLink.search identity) d = (.error e, { d with link }) := by
      rw [call, on_run, hrun]
    rw [refresh, bind_error hsearch]
    exact .inl ⟨_, e, _, rfl, .called h listening stale hl, .interrupted List.nil_prefix hraised⟩
  have hsearch : call (DirectoryLink.search identity) d =
      (.ok (t.current identity), { d with link }) := by
    rw [call, on_run, hrun, h.listings]
  by_cases hnone : t.current identity = []
  · rw [Listings.hasCurrent_eq_false.2 hnone]
    exact .inr (refresh_none hs h listening hstale hsearch hl hnone)
  have hyes := Listings.hasCurrent_eq_true.2 hnone
  cases hselect : d.cache.policy.select identity (t.current identity) with
  | error e =>
    have hchoice : (some <$> lift (.error e) : Action LookupDesk (Option CardChain)) { d with link } =
        (.error e, { d with link }) := rfl
    rw [refresh, bind_ok hsearch, bind_ok (get_run _)]
    dsimp only
    rw [if_neg (by rw [List.isEmpty_iff]; exact hnone), hselect, bind_error hchoice]
    exact .inl ⟨_, e, _, rfl, .called h listening stale hl, .undecided List.prefix_rfl hyes hselect⟩
  | ok chain =>
    rw [hyes]
    exact .inr (refresh_chosen hs h listening hstale hsearch hl hnone hselect)

/-- Refreshing identities in order goes as far as the directory answers and a card can be chosen. -/
theorem refreshAll_cases (hs : t.Regular S) (h : d.Agrees t) (listening : Bool) {stale : List Card}
    (hstale : ∀ c ∈ stale, t.Lists (c.marked true)) (identities : List String) :
    ∃ done n r d', refreshAll listening stale identities d = (r, d') ∧
      Refreshed t listening stale done n d d' ∧ Outcome t d identities done n r := by
  induction identities generalizing d with
  | nil => exact ⟨[], 0, .ok [], d, rfl, .called h listening stale (.refl _), .finished⟩
  | cons identity identities ih =>
    rcases refresh_cases hs h listening identity hstale with
      ⟨n, e, d', hfirst, hd', hout⟩ | ⟨d₁, hfirst, hd₁⟩
    · refine ⟨[], n, .error e, d', by rw [refreshAll, bind_error hfirst], hd', ?_⟩
      cases hout with
      | interrupted _ raised => exact .interrupted List.nil_prefix raised
      | undecided first some refused =>
        obtain rfl := (List.cons_prefix_cons.1 first).1
        exact .undecided (List.prefix_append _ _) some refused
    · obtain ⟨done, n, r, d₂, hrest, hd₂, hout⟩ := ih hd₁.agrees
      have hall := hd₁.trans hd₂
      rw [Nat.add_comm] at hall
      refine ⟨identity :: done, n + 1, _, d₂, ?_, hall,
        (hout.of_called hd₁.link hd₁.policy).cons identity⟩
      rw [refreshAll, bind_ok hfirst, bind_run, hrest]
      cases r <;> rfl

/-! ## Updating -/

/-- What an update has done to a desk once the answers for some identities have come. -/
structure Progress (t : Listings) (listening : Bool) (done : List String) (n : Nat)
    (d d' : LookupDesk) : Prop where
  agrees : d'.Agrees t
  policy : d'.cache.policy = d.cache.policy
  link : d.link.Called n d'.link
  reported : d'.reported = d.reported ++ reports t listening done
  others : ∀ identity ∉ done, d'.cache.rows.ofIdentity identity = d.cache.rows.ofIdentity identity
  renewed : ∀ identity ∈ done, ∀ r ∈ d'.cache.rows.ofIdentity identity, r.outdated = false →
    ∃ l ∈ t.rows, l.isCurrent = true ∧ r = CardRow.ofCard l.card
  decided : ∀ identity ∈ done, t.hasCurrent identity = true →
    ∃ chain, d.cache.policy.select identity (t.current identity) = .ok chain
  covers : ∀ identity ∈ done, ∀ c ∈ t.chosen d.cache.policy identity, d'.cache.rows.Covers c

theorem Progress.nil (h : d.Agrees t) (listening : Bool) {n : Nat} {link : DirectoryLink}
    (hl : d.link.Called n link) : Progress t listening [] n d { d with link } where
  agrees := h.called hl
  policy := rfl
  link := hl
  reported := by rw [reports_nil, List.append_nil]
  others := fun _ _ => rfl
  renewed := nofun
  decided := nofun
  covers := nofun

/-- Storing the stale cards as replaced and what was chosen leaves no card of these identities current
that the directory does not serve. -/
theorem Refreshed.served (hs : t.Regular S) (h : d.cache.rows.Coherent t) {stale : List Card}
    (hstale : ∀ c, c ∈ stale ↔ c.id ∈ t.outdated d.cache.rows.currentIds ∧ t.Lists c ∧
      CardRow.ofCard c ∈ d.cache.rows.rows) {done : List String} {n : Nat} {d' : LookupDesk}
    (hd : Refreshed t listening stale done n d d') {r : CardRow} (hr : r ∈ d'.cache.rows.rows)
    (hi : r.identity ∈ done) (ho : r.outdated = false) :
    ∃ l ∈ t.rows, l.isCurrent = true ∧ r = CardRow.ofCard l.card := by
  rcases hd.stored.current r hr ho with hbefore | ⟨c, hc, hco, rfl⟩
  · obtain ⟨c, hlists, rfl⟩ := h r hbefore
    rcases hlists.current_or_withdrawn ho with ⟨l, hl, hcurrent, rfl⟩ | hno
    · exact ⟨l, hl, hcurrent, rfl⟩
    · -- the directory reported the card, so it was stored as replaced
      have hcached : c.id ∈ d.cache.rows.currentIds :=
        CardRows.mem_currentIds.2 ⟨_, hbefore, rfl, ho⟩
      have hstaled : c ∈ stale := (hstale c).2 ⟨mem_outdated.2 ⟨hcached, hno⟩, hlists, hbefore⟩
      obtain ⟨q, hq, hqid, hqo⟩ :=
        hd.stored.covers _ (List.mem_flatMap.2 ⟨c.identity, hi, marked_mem_answer hstaled⟩)
      obtain rfl := Table.eq_of_key_eq hq hr hqid
      rw [ho] at hqo
      cases hqo rfl
  · obtain ⟨identity, -, hanswer⟩ := List.mem_flatMap.1 hc
    obtain ⟨l, hl, hcurrent, hlc⟩ := current_of_answer hs hanswer hco
    exact ⟨l, hl, hcurrent, by rw [hlc]⟩

/-- So the stale identities in `done` are up to date, and all others are as they were. -/
theorem Refreshed.progress (hs : t.Regular S) (h : d.cache.rows.Coherent t) {stale : List Card}
    (hstale : ∀ c, c ∈ stale ↔ c.id ∈ t.outdated d.cache.rows.currentIds ∧ t.Lists c ∧
      CardRow.ofCard c ∈ d.cache.rows.rows) {done : List String} {n : Nat} {d' : LookupDesk}
    (hd : Refreshed t listening stale done n d d') :
    Progress t listening done n d d' where
  agrees := hd.agrees
  policy := hd.policy
  link := hd.link
  reported := hd.reported
  others := by
    intro identity hno
    refine hd.stored.others identity fun c hc hi => hno ?_
    obtain ⟨other, hother, hc⟩ := List.mem_flatMap.1 hc
    rw [← hi, identity_of_answer hs hc]
    exact hother
  renewed := by
    intro identity hi r hmem ho
    obtain ⟨hr, rfl⟩ := CardRows.mem_ofIdentity.1 hmem
    exact hd.served hs h hstale hr hi ho
  decided := hd.decided
  covers := by
    intro identity hi c hc
    exact hd.stored.covers c (List.mem_flatMap.2 ⟨identity, hi, List.mem_append_right _ hc⟩)

namespace Progress

variable {done : List String} {n : Nat} {d' : LookupDesk} (hd : Progress t listening done n d d')
include hd

theorem not_stale (hi : identity ∈ done) : identity ∉ d'.cache.rows.stale t := by
  intro hstale
  obtain ⟨r, hr, ho, l, hl, hid, hno⟩ := CardRows.mem_stale.1 hstale
  obtain ⟨m, hm, hcurrent, rfl⟩ := hd.renewed identity hi r hr ho
  obtain rfl : l = m := Table.eq_of_key_eq hl hm hid
  rw [hno] at hcurrent
  cases hcurrent

/-- The card that is chosen for an identity is cached as the directory serves it. -/
theorem find?_head (hs : t.Regular S) (hi : identity ∈ done) {chain : CardChain}
    (hchain : d.cache.policy.select identity (t.current identity) = .ok chain) :
    d'.cache.rows.find? chain.head.id = some (CardRow.ofCard chain.head) := by
  obtain ⟨l, hl, hcard, -⟩ := (hs.serves_of_select hchain).listed
  have hcovers := hd.covers identity hi chain.head
    (Listings.mem_chosen.2 ⟨chain, hchain, List.mem_cons_self⟩)
  rw [← hcard] at hcovers ⊢
  exact hd.agrees.coherent.find?_listed hs hl hcovers

end Progress

theorem update_of_none (hk : d.cache.Reliable) (hnone : d.cache.rows.currentIds = []) :
    update S listening d = (.ok [], d) := by
  have hids : inCache CardCache.currentIds d = (.ok [], d) := by
    rw [inCache, on_run, CardCache.currentIds_run hk, hnone]
  rw [update, bind_ok hids]
  rfl

theorem update_of_some (hk : d.cache.Reliable) (hsome : d.cache.rows.currentIds ≠ []) :
    update S listening d = (do
      let outdated ← call (DirectoryLink.outdated d.cache.rows.currentIds)
      let stale ← cachedHeads S outdated
      refreshAll listening stale (inOrder (stale.map (·.identity))) : Action _ _) d := by
  have hids : inCache CardCache.currentIds d = (.ok d.cache.rows.currentIds, d) := by
    rw [inCache, on_run, CardCache.currentIds_run hk]
  rw [update, bind_ok hids]
  cases hcurrent : d.cache.rows.currentIds with
  | nil => exact absurd hcurrent hsome
  | cons id ids => rfl

/-- An update goes through the stale identities in order, as far as the directory answers and a card can
be chosen. -/
theorem update_progress (hs : t.Regular S) (h : d.Agrees t) (listening : Bool) :
    ∃ done n r d', update S listening d = (r, d') ∧ Progress t listening done n d d' ∧
      Outcome t d (d.cache.rows.stale t) done n r := by
  by_cases hnone : d.cache.rows.currentIds = []
  · have hstale : d.cache.rows.stale t = [] := by
      refine List.eq_nil_iff_forall_not_mem.2 fun identity hi => ?_
      obtain ⟨r, hr, ho, -⟩ := CardRows.mem_stale.1 hi
      have hmem := CardRows.mem_currentIds.2 ⟨r, (CardRows.mem_ofIdentity.1 hr).1, rfl, ho⟩
      rw [hnone] at hmem
      cases hmem
    rw [hstale]
    exact ⟨[], 0, .ok [], d, update_of_none h.reliable hnone, .nil h listening (.refl _), .finished⟩
  rw [update_of_some h.reliable hnone]
  rcases d.link.outdated_cases d.cache.rows.currentIds with
    ⟨e, link, hrun, hl, hraised⟩ | ⟨link, hrun, hl⟩
  · have hcheck : call (DirectoryLink.outdated d.cache.rows.currentIds) d =
        (.error e, { d with link }) := by
      rw [call, on_run, hrun]
    rw [bind_error hcheck]
    exact ⟨[], 0, .error e, _, rfl, .nil h listening hl, .interrupted List.nil_prefix hraised⟩
  have hcheck : call (DirectoryLink.outdated d.cache.rows.currentIds) d =
      (.ok (t.outdated d.cache.rows.currentIds), { d with link }) := by
    rw [call, on_run, hrun, h.listings]
  have hagrees := h.called hl
  obtain ⟨stale, hheads, hstale⟩ := cachedHeads_run hs hagrees (t.outdated d.cache.rows.currentIds)
  have hreplaced : ∀ c ∈ stale, t.Lists (c.marked true) := by
    intro c hc
    obtain ⟨hreported, hlists, -⟩ := (hstale c).1 hc
    obtain ⟨-, l, hl, hid, hno⟩ := mem_outdated.1 hreported
    exact hlists.marked hl hid hno
  have hidentities : inOrder (stale.map (·.identity)) = d.cache.rows.stale t :=
    stale_of_heads h.coherent hstale
  obtain ⟨done, n, r, d', hrefresh, hd', hout⟩ :=
    refreshAll_cases hs hagrees listening hreplaced (inOrder (stale.map (·.identity)))
  have hall := (Refreshed.called h listening stale hl).trans hd'
  rw [List.nil_append, Nat.zero_add] at hall
  rw [hidentities] at hrefresh hout
  refine ⟨done, n, r, d', ?_, hall.progress hs h.coherent hstale, hout.of_called hl rfl⟩
  rw [bind_ok hcheck, bind_ok hheads, hidentities, hrefresh]

/-- An update keeps the cache in agreement with the directory, whatever fails. -/
theorem keeps_agreement (hs : t.Regular S) (listening : Bool) :
    Keeps (LookupDesk.Agrees t) (update S listening) fun _ => True := by
  intro d h
  obtain ⟨done, n, r, d', hrun, hd, -⟩ := update_progress hs h listening
  rw [hrun]
  exact ⟨hd.agrees, fun _ _ => trivial⟩

end Lookup

end EndToEnd
