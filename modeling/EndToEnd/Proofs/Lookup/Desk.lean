/-
  Lookups keep a cache in agreement with the directory.

  A desk agrees with the listings at the other end of its link if its cache is coherent with them; it is
  settled if besides that neither the cache nor the link fails a call. Lookups store only cards that the
  directory serves, so they keep a desk as it is in this respect, and the listings as they are.
-/
import EndToEnd.Lookup
import EndToEnd.Proofs.Card.Recall
import EndToEnd.Proofs.Directory.Link

open EndToEnd.Action

namespace EndToEnd

variable {S : CipherSuite} {t : Listings} {identity : String}

namespace Listings

/-- The cards of a chain that is served are listed. -/
theorem Serves.lists {chain : CardChain} (h : t.Serves identity chain) :
    ∀ c ∈ chain.cards, t.Lists c := by
  intro c hc
  obtain ⟨l, hl, rfl, -⟩ := h.mem hc
  exact lists_of_mem hl

theorem Regular.serves_of_select {policy : DuplicatePolicy} {chain : CardChain} (hs : t.Regular S)
    (h : policy.select identity (t.current identity) = .ok chain) : t.Serves identity chain :=
  Ordered.serves_of_current hs.ordered (DuplicatePolicy.mem_of_choose h)

end Listings

namespace LookupDesk

/-- The cache agrees with the listings, and no call fails on the way. -/
structure Settled (t : Listings) (d : LookupDesk) : Prop where
  reliable : d.cache.Reliable
  coherent : d.cache.rows.Coherent t
  clear : d.link.Clear
  listings : d.link.listings = t

/-- The cache agrees with the listings, whatever happens to calls on the way to the directory. -/
structure Agrees (t : Listings) (d : LookupDesk) : Prop where
  reliable : d.cache.Reliable
  coherent : d.cache.rows.Coherent t
  listings : d.link.listings = t

theorem Settled.agrees {d : LookupDesk} (h : d.Settled t) : d.Agrees t :=
  ⟨h.reliable, h.coherent, h.listings⟩

theorem Agrees.settled {d : LookupDesk} (h : d.Agrees t) (hc : d.link.Clear) : d.Settled t :=
  ⟨h.reliable, h.coherent, hc, h.listings⟩

theorem Agrees.called {d : LookupDesk} (h : d.Agrees t) {n : Nat} {link : DirectoryLink}
    (hl : d.link.Called n link) : Agrees t { d with link } :=
  ⟨h.reliable, h.coherent, hl.listings.trans h.listings⟩

end LookupDesk

namespace Lookup

/-! ## Identities that are looked up together -/

theorem mem_inOrder {texts : List String} {a : String} : a ∈ inOrder texts ↔ a ∈ texts := by
  rw [inOrder, List.mem_mergeSort, List.mem_eraseDups]

theorem pairwise_inOrder (texts : List String) : (inOrder texts).Pairwise (· < ·) :=
  Text.pairwise_lt_mergeSort (Text.nodup_eraseDups texts)

/-- The identities that are repeated, in order. -/
def repeated (identities : List String) : List String :=
  inOrder (identities.filter fun i => 1 < identities.count i)

theorem mem_repeated {identities : List String} :
    identity ∈ repeated identities ↔ 1 < identities.count identity := by
  rw [repeated, mem_inOrder, List.mem_filter, decide_eq_true_eq, and_iff_right_iff_imp]
  exact fun h => List.count_pos_iff.1 (Nat.lt_of_succ_lt h)

theorem repeated_eq_nil {identities : List String} : repeated identities = [] ↔ identities.Nodup := by
  rw [List.eq_nil_iff_forall_not_mem, List.nodup_iff_count]
  exact forall_congr' fun i => by rw [mem_repeated, Nat.not_lt]

theorem validate_of_blank {identities : List String} (h : ∃ i ∈ identities, Text.isBlank i = true) :
    validate identities = .error (.emptyArgument "identity") := by
  obtain ⟨i, hi, -⟩ := id h
  rw [validate, if_neg (by rw [List.isEmpty_iff]; exact List.ne_nil_of_mem hi),
    if_pos (List.any_eq_true.2 h)]

/-- Identities that are there and not blank are refused for repeats only. -/
theorem validate_of_named {identities : List String} (hsome : identities ≠ [])
    (hnamed : ∀ i ∈ identities, Text.isBlank i = false) : validate identities =
      if identities.Nodup then .ok () else .error (.duplicateInput (repeated identities)) := by
  have hany : ¬ identities.any Text.isBlank = true := by
    rw [List.any_eq_true]
    rintro ⟨i, hi, hblank⟩
    rw [hnamed i hi] at hblank
    cases hblank
  rw [validate, if_neg (by rwa [List.isEmpty_iff]), if_neg hany]
  by_cases hdistinct : identities.Nodup
  · have hnone : inOrder (identities.filter fun i => 1 < identities.count i) = [] :=
      repeated_eq_nil.2 hdistinct
    rw [hnone, if_pos hdistinct]
  · have hdups := mt repeated_eq_nil.1 hdistinct
    rw [if_neg hdistinct]
    unfold repeated at hdups ⊢
    generalize inOrder (identities.filter fun i => 1 < identities.count i) = repeated at hdups ⊢
    cases repeated with
    | nil => exact absurd rfl hdups
    | cons i others => rfl

/-- Which identities pass the check. -/
theorem validate_eq_ok_iff {identities : List String} : validate identities = .ok () ↔
    identities ≠ [] ∧ (∀ i ∈ identities, Text.isBlank i = false) ∧ identities.Nodup := by
  constructor
  · intro h
    have hsome : identities ≠ [] := by
      rintro rfl
      cases h
    have hnamed : ∀ i ∈ identities, Text.isBlank i = false := by
      intro i hi
      refine Bool.eq_false_iff.2 fun hblank => ?_
      rw [validate_of_blank ⟨i, hi, hblank⟩] at h
      cases h
    refine ⟨hsome, hnamed, Decidable.by_contra fun hdups => ?_⟩
    rw [validate_of_named hsome hnamed, if_neg hdups] at h
    cases h
  · rintro ⟨hsome, hnamed, hdistinct⟩
    rw [validate_of_named hsome hnamed, if_pos hdistinct]

/-- A lookup of identities that pass the check. -/
theorem findUsers_of_valid {identities : List String} (h : validate identities = .ok ())
    (reload : Bool) (d : LookupDesk) : findUsers S identities reload d =
      ((if reload then pure [] else cached S identities) >>= fun found =>
        fetchMissing identities (FoundCards.ofList found)) d := by
  rw [findUsers, h, bind_ok (lift_run _ _)]
  cases reload <;> rfl

/-! ## What lookups keep -/

/-- Lookups keep a property of the desk if searches do, finding certain chains, and if so do storing such
chains in the cache and reading the cache. -/
structure Maintained (S : CipherSuite) (P : LookupDesk → Prop) (Found : String → CardChain → Prop) :
    Prop where
  search : ∀ identity, Keeps P (call (DirectoryLink.search identity)) fun cards =>
    ∀ chain ∈ cards, Found identity chain
  storeChain : ∀ {identity chain}, Found identity chain →
    Keeps P (inCache (CardCache.storeChain chain)) fun _ => True
  cached : ∀ identities, Keeps P (cached S identities) fun _ => True

namespace Maintained

variable {P : LookupDesk → Prop} {Found : String → CardChain → Prop}

theorem fetch (h : Maintained S P Found) (identity : String) :
    Keeps P (fetch identity) fun _ => True := by
  refine .bind (h.search identity) fun cards hcards => .bind .get fun desk _ => ?_
  have hchosen : Keeps P (lift (desk.cache.policy.select identity cards) : Action LookupDesk CardChain)
      (Found identity) :=
    .lift fun chain hchain => hcards chain (DuplicatePolicy.mem_of_choose hchain)
  refine hchosen.bind fun chain hchain => ?_
  exact .bind (h.storeChain hchain) fun _ _ => .pure trivial

theorem fetchMissing (h : Maintained S P Found) (identities : List String) (found : FoundCards) :
    Keeps P (fetchMissing identities found) fun _ => True := by
  induction identities generalizing found with
  | nil => exact .pure trivial
  | cons identity identities ih =>
    rw [Lookup.fetchMissing]
    split
    · exact ih found
    · exact .bind (h.fetch identity) fun card _ => ih _

theorem findUsers (h : Maintained S P Found) (identities : List String) (reload : Bool) :
    Keeps P (findUsers S identities reload) fun _ => True := by
  have hmissing : ∀ found : List CardChain,
      Keeps P (Lookup.fetchMissing identities (FoundCards.ofList found)) fun _ => True :=
    fun found => h.fetchMissing identities (FoundCards.ofList found)
  refine .bind (.lifted _) fun _ _ => ?_
  cases reload with
  | true => exact hmissing []
  | false => exact .bind (h.cached identities) fun found _ => hmissing found

theorem findUser (h : Maintained S P Found) (identity : String) (reload : Bool) :
    Keeps P (findUser S identity reload) fun _ => True := by
  refine .bind (h.findUsers [identity] reload) fun found _ => ?_
  cases found.find? identity with
  | none => exact .throw _
  | some card => exact .pure trivial

theorem findCachedUsers (h : Maintained S P Found) (identities : List String) :
    Keeps P (findCachedUsers S identities) fun _ => True :=
  .bind (.lifted _) fun _ _ => .map (h.cached identities)

theorem findCachedUser (h : Maintained S P Found) (identity : String) :
    Keeps P (findCachedUser S identity) fun _ => True := by
  rw [Lookup.findCachedUser]
  split
  · exact .throw _
  · exact .map (h.cached [identity])

theorem publicKeys (h : Maintained S P Found) (identities : List String) :
    Keeps P (publicKeys S identities) fun _ => True :=
  .bind (h.findUsers identities false) fun _ _ => .pure trivial

end Maintained

/-! ## Desks that agree with the directory -/

/-- A search finds chains that are served. -/
theorem keeps_search (hs : t.Regular S) (identity : String) :
    Keeps (LookupDesk.Agrees t) (call (DirectoryLink.search identity)) fun cards =>
      ∀ chain ∈ cards, t.Serves identity chain := by
  intro d h
  rw [call, on_run]
  rcases d.link.search_cases identity with ⟨e, link, hrun, hl, -⟩ | ⟨link, hrun, hl⟩
  · rw [hrun]
    exact ⟨h.called hl, nofun⟩
  · rw [hrun]
    refine ⟨h.called hl, fun cards hcards chain hchain => ?_⟩
    cases hcards
    rw [h.listings] at hchain
    exact Listings.Ordered.serves_of_current hs.ordered hchain

theorem keeps_storeChain (hs : t.Regular S) {chain : CardChain} (hc : t.Serves identity chain) :
    Keeps (LookupDesk.Agrees t) (inCache (CardCache.storeChain chain)) fun _ => True := by
  intro d h
  obtain ⟨rows, hrun, hstored⟩ := CardCache.storeChain_run h.reliable hs h.coherent hc.lists
  rw [inCache, on_run, hrun]
  exact ⟨⟨h.reliable.withRows rows, hstored.coherent, h.listings⟩, fun _ _ => trivial⟩

theorem keeps_cached (hs : t.Regular S) (identities : List String) :
    Keeps (LookupDesk.Agrees t) (cached S identities) fun _ => True := by
  intro d h
  have hkept := CardCache.searchFrom_kept h.reliable hs h.coherent [] identities
  rw [cached, inCache, on_run, CardCache.search, hkept]
  exact ⟨h, fun _ _ => trivial⟩

/-- Lookups keep a cache in agreement with the directory, whether or not calls fail. -/
theorem maintained_agreeing (hs : t.Regular S) : Maintained S (LookupDesk.Agrees t) t.Serves where
  search := keeps_search hs
  storeChain := keeps_storeChain hs
  cached := keeps_cached hs

/-! ## Settled desks -/

/-- A desk stays settled where it stays in agreement and its link keeps losing no call. -/
theorem keeps_settled {α : Type} {x : Action LookupDesk α} {Q : α → Prop}
    (hx : Keeps (LookupDesk.Agrees t) x Q) (hc : Keeps (fun d => d.link.Clear) x fun _ => True) :
    Keeps (LookupDesk.Settled t) x Q := by
  intro d h
  obtain ⟨hagrees, hq⟩ := hx d h.agrees
  exact ⟨hagrees.settled (hc d h.clear).1, hq⟩

theorem keeps_clear_inCache {α : Type} (x : Action CardCache α) :
    Keeps (fun d => d.link.Clear) (inCache x) fun _ => True :=
  fun _ h => ⟨h, fun _ _ => trivial⟩

theorem keeps_clear_search (identity : String) :
    Keeps (fun d => d.link.Clear) (call (DirectoryLink.search identity)) fun _ => True := by
  intro d h
  refine ⟨?_, fun _ _ => trivial⟩
  rw [call, on_run]
  rcases d.link.search_cases identity with ⟨e, link, hrun, hl, -⟩ | ⟨link, hrun, hl⟩
  · rw [hrun]
    exact hl.clear h
  · rw [hrun]
    exact hl.clear h

theorem maintained_settled (hs : t.Sound S) : Maintained S (LookupDesk.Settled t) t.Serves where
  search := fun identity => keeps_settled (keeps_search hs.regular identity) (keeps_clear_search identity)
  storeChain := fun hc => keeps_settled (keeps_storeChain hs.regular hc) (keeps_clear_inCache _)
  cached := fun identities => keeps_settled (keeps_cached hs.regular identities) (keeps_clear_inCache _)

end Lookup

end EndToEnd
