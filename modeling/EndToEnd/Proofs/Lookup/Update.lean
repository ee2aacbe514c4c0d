/-
  What an update makes of a cache when no call fails.

  Proved:
  * `update_run`: an update that the directory answers leaves no card current in the cache that the
    directory does not serve as current, and gives in order exactly the identities of which it replaced
    a card.
  * `update_again`: there is nothing left for a second update to do.
  * `findCachedUser_run`: a chain that was stored is found as the directory serves it.
-/
import EndToEnd.Proofs.Lookup.Progress

open EndToEnd.Action

namespace EndToEnd

variable {S : CipherSuite} {t : Listings} {d : LookupDesk} {identity : String} {listening : Bool}

namespace Listings

/-- The cards that the directory serves for an identity, with what they lead back to. -/
def cardsOf (t : Listings) (identity : String) : List Card :=
  (t.current identity).flatMap CardChain.cards

theorem Sound.hasCurrent_iff (hs : t.Sound S) (identity : String) :
    t.hasCurrent identity = true ↔ ∃ l ∈ t.rows, l.isCurrent = true ∧ l.card.identity = identity := by
  unfold hasCurrent
  rcases hs.current_eq identity with ⟨hnone, hno⟩ | ⟨chain, hone, hserves⟩
  · rw [hnone]
    constructor
    · exact nofun
    · rintro ⟨l, hl, hc, hi⟩
      exact absurd hi (hno l hl hc)
  · rw [hone]
    obtain ⟨l, hl, hcard, hc⟩ := hserves.listed
    have hi : l.card.identity = identity := by
      rw [hcard]
      exact hserves.owned
    exact ⟨fun _ => ⟨l, hl, hc, hi⟩, fun _ => rfl⟩

/-- Where an identity has one current card, the choice is that. -/
theorem Sound.chosen_eq (hs : t.Sound S) (policy : DuplicatePolicy) (identity : String) :
    t.chosen policy identity = t.cardsOf identity := by
  rcases hs.current_eq identity with ⟨hnone, -⟩ | ⟨chain, hone, -⟩
  · rw [chosen_of_none hnone, cardsOf, hnone]
    rfl
  · have hselect : policy.select identity (t.current identity) = .ok chain := by
      rw [hone]
      rfl
    rw [chosen_of_select hselect, cardsOf, hone, List.flatMap_singleton]

end Listings

namespace Lookup

/-- What an update has done to a desk. -/
structure Updated (t : Listings) (listening : Bool) (d d' : LookupDesk) (changed : List String) :
    Prop where
  settled : d'.Settled t
  fresh : d'.cache.rows.Fresh t
  ordered : changed.Pairwise (· < ·)
  exactly : ∀ identity, identity ∈ changed ↔
    (∃ r ∈ d.cache.rows.rows, r.outdated = false ∧ r.identity = identity ∧
      ∃ l ∈ t.rows, l.id = r.id ∧ l.isCurrent = false) ∧
    ∃ l ∈ t.rows, l.isCurrent = true ∧ l.card.identity = identity
  covers : ∀ identity ∈ changed, ∀ c ∈ t.cardsOf identity, d'.cache.rows.Covers c
  reachable : d'.cache.rows.currentIds = [] ∨ d'.link.directory.available = true
  reported : d'.reported = d.reported ++ if listening then changed else []

/-- An update has come to its end. -/
theorem Progress.updated (hs : t.Sound S) (h : d.Settled t) (ha : d.link.directory.available = true)
    {n : Nat} {d' : LookupDesk} (hd : Progress t listening (d.cache.rows.stale t) n d d') :
    Updated t listening d d' ((d.cache.rows.stale t).filter t.hasCurrent) where
  settled := hd.agrees.settled (hd.link.clear h.clear)
  fresh := by
    intro r hr ho
    have howned := CardRows.mem_ofIdentity.2 ⟨hr, rfl⟩
    by_cases hi : r.identity ∈ d.cache.rows.stale t
    · exact hd.renewed _ hi r howned ho
    · -- the row was there before, and its card was not stale
      rw [hd.others _ hi] at howned
      obtain ⟨c, hlists, rfl⟩ := h.coherent r (CardRows.mem_ofIdentity.1 howned).1
      rcases hlists.current_or_withdrawn ho with ⟨l, hl, hcurrent, rfl⟩ | hno
      · exact ⟨l, hl, hcurrent, rfl⟩
      · exact absurd (CardRows.mem_stale.2 ⟨_, howned, ho, hno⟩) hi
  ordered := (pairwise_inOrder _).sublist List.filter_sublist
  exactly := by
    intro identity
    rw [List.mem_filter, CardRows.mem_stale, hs.hasCurrent_iff]
    refine and_congr_left fun _ => exists_congr fun r => ?_
    rw [CardRows.mem_ofIdentity, and_assoc]
    exact and_congr_right fun _ => and_left_comm
  covers := by
    intro identity hi c hc
    rw [← hs.chosen_eq d.cache.policy] at hc
    exact hd.covers identity (List.mem_filter.1 hi).1 c hc
  reachable := .inr (hd.link.available.trans ha)
  reported := hd.reported

/-- The check of the cached current cards, where the directory can be reached. -/
theorem outdated_run (h : d.Settled t) (ha : d.link.directory.available = true) (ids : List String) :
    call (DirectoryLink.outdated ids) d = (.ok (t.outdated ids), d) := by
  rw [call, on_run, DirectoryLink.outdated_run h.clear, if_pos ha, h.listings]

/-- An update that reaches the directory comes to its end. -/
theorem update_reached (hs : t.Sound S) (h : d.Settled t) (ha : d.link.directory.available = true)
    (listening : Bool) :
    ∃ changed d', update S listening d = (.ok changed, d') ∧ Updated t listening d d' changed := by
  obtain ⟨done, n, r, d', hrun, hd, hout⟩ := update_progress hs.regular h.agrees listening
  cases hout with
  | finished => exact ⟨_, d', hrun, hd.updated hs h ha⟩
  | interrupted _ raised => exact absurd raised (h.clear.not_raises ha _)
  | @undecided _ identity _ _ some refused =>
    rcases hs.current_eq identity with ⟨hnone, -⟩ | ⟨chain, hone, -⟩
    · exact absurd hnone (Listings.hasCurrent_eq_true.1 some)
    · rw [hone] at refused
      cases refused

/-- An update fails only if it does not reach the directory, and then changes nothing. -/
theorem update_run (hs : t.Sound S) (h : d.Settled t) (listening : Bool) :
    (d.link.directory.available = false ∧
        update S listening d = (.error Directory.unreachable, d)) ∨
      ∃ changed d', update S listening d = (.ok changed, d') ∧ Updated t listening d d' changed := by
  by_cases hnone : d.cache.rows.currentIds = []
  · have hmarked : ∀ r ∈ d.cache.rows.rows, r.outdated ≠ false := by
      intro r hr ho
      have hmem := CardRows.mem_currentIds.2 ⟨r, hr, rfl, ho⟩
      rw [hnone] at hmem
      cases hmem
    refine .inr ⟨[], d, update_of_none h.reliable hnone, ⟨h, ?_, .nil, ?_, nofun, .inl hnone, ?_⟩⟩
    · exact fun r hr ho => absurd ho (hmarked r hr)
    · intro identity
      refine ⟨nofun, ?_⟩
      rintro ⟨⟨r, hr, ho, -⟩, -⟩
      exact absurd ho (hmarked r hr)
    · cases listening <;> exact (List.append_nil _).symm
  · by_cases ha : d.link.directory.available = true
    · exact .inr (update_reached hs h ha listening)
    · have hcheck : call (DirectoryLink.outdated d.cache.rows.currentIds) d =
          (.error Directory.unreachable, d) := by
        rw [call, on_run, DirectoryLink.outdated_run h.clear, if_neg ha]
      left
      rw [update_of_some h.reliable hnone, bind_error hcheck]
      exact ⟨Bool.eq_false_iff.2 ha, rfl⟩

/-- An update keeps a desk settled. -/
theorem keeps_update (hs : t.Sound S) (listening : Bool) :
    Keeps (LookupDesk.Settled t) (update S listening) fun _ => True := by
  intro d h
  obtain ⟨done, n, r, d', hrun, hd, -⟩ := update_progress hs.regular h.agrees listening
  rw [hrun]
  exact ⟨hd.agrees.settled (hd.link.clear h.clear), fun _ _ => trivial⟩

/-- There is nothing to update where the cache takes no card for current that the directory does
not. -/
theorem update_again (h : d.Settled t) (hfresh : d.cache.rows.Fresh t)
    (hr : d.cache.rows.currentIds = [] ∨ d.link.directory.available = true) (listening : Bool) :
    update S listening d = (.ok [], d) := by
  have hnothing : t.outdated d.cache.rows.currentIds = [] := by
    apply List.eq_nil_iff_forall_not_mem.2
    intro id hid
    obtain ⟨hcached, l, hl, hlid, hno⟩ := mem_outdated.1 hid
    obtain ⟨r, hr, hrid, ho⟩ := CardRows.mem_currentIds.1 hcached
    obtain ⟨l', hl', hcurrent, rfl⟩ := hfresh r hr ho
    have hsame : l'.id = l.id := Eq.trans hrid hlid.symm
    obtain rfl := Table.eq_of_key_eq hl' hl hsame
    rw [hno] at hcurrent
    cases hcurrent
  by_cases hnone : d.cache.rows.currentIds = []
  · exact update_of_none h.reliable hnone
  · have ha := hr.resolve_left hnone
    have hcheck := outdated_run h ha d.cache.rows.currentIds
    rw [hnothing] at hcheck
    rw [update_of_some h.reliable hnone, bind_ok hcheck, cachedHeads, bind_ok (pure_run _ _), List.map_nil,
      inOrder, List.eraseDups_nil, List.mergeSort_nil]
    rfl

/-- A chain that is served and cached whole is found by a lookup in a fresh cache. -/
theorem findCachedUser_run (hs : t.Sound S) (h : d.Settled t) (hfresh : d.cache.rows.Fresh t)
    {chain : CardChain} (hserves : t.Serves identity chain)
    (hc : ∀ c ∈ chain.cards, d.cache.rows.Covers c) :
    findCachedUser S identity d = (.ok (some chain), d) := by
  have hnamed := hserves.named hs
  have hcurrent := CardCache.current_run h.reliable hs h.coherent hfresh hserves hc
  have hsearch : CardCache.search S [identity] d.cache = (.ok [chain], d.cache) := by
    rw [CardCache.search, CardCache.searchFrom, if_neg List.not_mem_nil, bind_ok hcurrent]
    rfl
  rw [findCachedUser, if_neg (by rw [hnamed]; exact Bool.false_ne_true), map_run, cached, inCache, on_run,
    hsearch]
  rfl

end Lookup

end EndToEnd
