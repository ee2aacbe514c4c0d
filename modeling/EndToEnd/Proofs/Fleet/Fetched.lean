/-
  What a device answers from its cache right after it got a card.

  A card that was fetched or issued is cached with its whole chain. Whether the device then finds it in
  the cache is settled by the cards of that identity that the cache took for current before, and that
  are not of the chain: cards that the directory has withdrawn, and whose owner has started over. An
  update would mark them; fetching and issuing do not.

  Proved:
  * `Fetching.keeps`: fetching and issuing end with storing the chain that they give.
  * `Fleet.found_after_fetching`: when the card is found right afterwards, and what is found otherwise.
-/
import EndToEnd.Proofs.Fleet.Update
import EndToEnd.Proofs.Lookup.Found

open EndToEnd.Action

namespace EndToEnd

variable {S : CipherSuite} {s s' : Site} {chain : CardChain}

/-- The ways in which a device gets a card from elsewhere than its cache. -/
inductive Fetching where
  | reload (identity : String)
  | issue (i : Issuance)

namespace Fetching

/-- How a device gets a card. -/
def action (S : CipherSuite) (d : Device) : Fetching → Action Site CardChain
  | reload identity => Device.findUser S identity true
  | issue i => i.action S d

/-- Whose card it is. -/
def identity (d : Device) : Fetching → String
  | reload identity => identity
  | issue _ => d.identity

end Fetching

/-! ## Storing comes last -/

namespace Site

theorem inCache_ok {α : Type} {x : Action CardCache α} {a : α} (h : inCache x s = (.ok a, s')) :
    x s.cache = (.ok a, s'.cache) := by
  rw [inCache, on_run] at h
  obtain ⟨hr, rfl⟩ := Prod.mk.inj h
  exact Prod.ext hr rfl

theorem inLookup_ok {α : Type} {x : Action LookupDesk α} {a : α} (h : inLookup x s = (.ok a, s')) :
    x ⟨s.cache, s.directory, s.reported⟩ = (.ok a, ⟨s'.cache, s'.directory, s'.reported⟩) := by
  rw [inLookup, on_run] at h
  obtain ⟨hr, rfl⟩ := Prod.mk.inj h
  exact Prod.ext hr rfl

theorem cache_of_inVault {α : Type} {x : Action Vault α} {r : Except Error α}
    (h : inVault x s = (r, s')) : s'.cache = s.cache := by
  rw [inVault, on_run] at h
  obtain ⟨-, rfl⟩ := Prod.mk.inj h
  rfl

theorem cache_of_call {α : Type} {x : Action DirectoryLink α} {r : Except Error α}
    (h : call x s = (r, s')) : s'.cache = s.cache := by
  rw [call, on_run] at h
  obtain ⟨-, rfl⟩ := Prod.mk.inj h
  rfl

end Site

namespace Device

open Site

variable {d : Device}

/-- A chain that was published was stored to the cache as it was. -/
theorem stores_of_publish {key : KeyPair} {previous : Option CardChain}
    (h : d.publish S key previous s = (.ok chain, s')) :
    CardCache.storeChain chain s.cache = (.ok (), s'.cache) := by
  rw [publish_eq, bind_ok (get_run s)] at h
  obtain ⟨raw, -, h⟩ := of_lift_bind_ok h
  obtain ⟨c, s₁, hcall, h⟩ := of_bind_ok h
  obtain ⟨_, s₂, hvault, h⟩ := of_bind_ok h
  obtain ⟨_, s₃, hstore, h⟩ := of_bind_ok h
  have hstored := inCache_ok hstore
  rw [cache_of_inVault hvault, cache_of_call hcall] at hstored
  cases h
  exact hstored

theorem stores_of_registerWith {key : KeyPair} (h : d.registerWith S key s = (.ok chain, s')) :
    CardCache.storeChain chain s.cache = (.ok (), s'.cache) := by
  obtain ⟨_, s₁, hvault, h⟩ := of_bind_ok h
  obtain ⟨cards, s₂, hcall, h⟩ := of_bind_ok h
  rw [← cache_of_inVault hvault, ← cache_of_call hcall]
  cases cards with
  | nil => exact stores_of_publish h
  | cons c cs => cases h

theorem stores_of_rotate (h : d.rotate S s = (.ok chain, s')) :
    CardCache.storeChain chain s.cache = (.ok (), s'.cache) := by
  obtain ⟨_, s₁, hvault, h⟩ := of_bind_ok h
  obtain ⟨cards, s₂, hcall, h⟩ := of_bind_ok h
  rw [← cache_of_inVault hvault, ← cache_of_call hcall]
  cases cards with
  | nil => cases h
  | cons c cs =>
    obtain ⟨previous, -, h⟩ := of_lift_bind_ok h
    obtain ⟨key, s₃, hdraw, h⟩ := of_bind_ok h
    rw [← cache_of_inVault hdraw]
    exact stores_of_publish h

theorem stores_of_issue {i : Issuance} (h : i.action S d s = (.ok chain, s')) :
    CardCache.storeChain chain s.cache = (.ok (), s'.cache) := by
  cases i with
  | register =>
    obtain ⟨key, s₁, hdraw, h⟩ := of_bind_ok h
    rw [← cache_of_inVault hdraw]
    exact stores_of_registerWith h
  | registerWith key => exact stores_of_registerWith h
  | rotate => exact stores_of_rotate h

end Device

namespace Lookup

variable {t : Listings} {identity : String} {d d' : LookupDesk}

/-- A chain that was fetched is served, and was stored to the cache as it was. -/
theorem stores_of_fetch (hs : t.Sound S) (h : d.Settled t) (hrun : fetch identity d = (.ok chain, d')) :
    t.Serves identity chain ∧ CardCache.storeChain chain d.cache = (.ok (), d'.cache) ∧
      d'.link.listings = t := by
  obtain ⟨hchosen, link, rows, hl, hstore, -, rfl⟩ := fetch_ok hs.regular h.agrees hrun
  exact ⟨hs.regular.serves_of_select hchosen, hstore, hl.listings.trans h.listings⟩

/-- To reload an identity is to fetch its card. -/
theorem fetch_of_reload (hrun : findUser S identity true d = (.ok chain, d')) :
    fetch identity d = (.ok chain, d') := by
  obtain ⟨found, d₁, husers, hrun⟩ := of_bind_ok hrun
  obtain ⟨_, -, husers⟩ := of_lift_bind_ok husers
  change (fetch identity >>= fun card => fetchMissing [] ((FoundCards.ofList []).insert card)) d =
    (.ok found, d₁) at husers
  obtain ⟨card, d₂, hfetch, husers⟩ := of_bind_ok husers
  cases husers
  have hfound : ((FoundCards.ofList []).insert card).find? identity =
      if card.head.identity = identity then some card else none := Table.find?_insert _ _ _
  rw [hfetch]
  by_cases hcard : card.head.identity = identity
  · rw [hfound, if_pos hcard] at hrun
    cases hrun
    rfl
  · rw [hfound, if_neg hcard] at hrun
    cases hrun

end Lookup

/-! ## What is found afterwards -/

/-- Both kinds of lookup answer the same from the cache of a device, and change nothing. -/
def Device.Answers (S : CipherSuite) (identity : String) (r : Except Error CardChain) (s : Site) : Prop :=
  Device.findCachedUser S identity s = (r.map some, s) ∧ Device.findUser S identity false s = (r, s)

theorem Device.answers_of_lookup {identity : String} {r : Except Error CardChain}
    (h : Lookup.Answers S identity r ⟨s.cache, s.directory, s.reported⟩) :
    Device.Answers S identity r s :=
  ⟨Site.inLookup_run h.1, Site.inLookup_run h.2⟩

namespace Fetching

variable {d : Device} {op : Fetching}

/-- Fetching and issuing end with storing the chain that they give, which is then served. -/
theorem keeps (hs : s.Sound S) (h : op.action S d s = (.ok chain, s')) :
    s'.listings.Sound S ∧
      CardCache.Keeps s'.listings (op.identity d) chain s.cache s'.cache := by
  cases op with
  | reload identity =>
    have hfetch := Lookup.fetch_of_reload (Site.inLookup_ok h)
    obtain ⟨hserves, hstore, hlistings⟩ := Lookup.stores_of_fetch hs.listings hs.settled hfetch
    rw [show s'.listings = s.listings from hlistings]
    exact ⟨hs.listings,
      CardCache.keeps_of_storeChain hs.reliable hs.listings hs.coherent hserves hstore⟩
  | issue i =>
    have hends := i.ends hs d
    rw [show i.action S d s = (.ok chain, s') from h] at hends
    cases hends with
    | done hi =>
      refine ⟨hi.advances.sound.listings, ?_⟩
      exact CardCache.keeps_of_storeChain hs.reliable hi.advances.sound.listings
        (hs.coherent.mono hi.advances.grows) hi.serves (Device.stores_of_issue h)

/-- The identity has a name that can be looked up. -/
theorem named (hs : s.Sound S) (h : op.action S d s = (.ok chain, s')) :
    Text.isBlank (op.identity d) = false := by
  obtain ⟨ht, hkeeps⟩ := keeps hs h
  exact hkeeps.serves.named ht

theorem answers_of_current (hs : s.Sound S) (h : op.action S d s = (.ok chain, s'))
    {r : Except Error CardChain} (howned : ∀ chain, r = .ok chain → chain.head.identity = op.identity d)
    (hcurrent : CardCache.current S (op.identity d) s'.cache = (r.map some, s'.cache)) :
    Device.Answers S (op.identity d) r s' :=
  Device.answers_of_lookup (Lookup.answers_of_current (named hs h) howned hcurrent)

/-- The card is found right afterwards, if the cache held no stray or if all strays are older and the
newest card is preferred. -/
theorem answers_chain (hs : s.Sound S) (h : op.action S d s = (.ok chain, s'))
    (hno : s.cache.rows.strays chain = [] ∨ s.cache.policy = .preferNewest ∧
      ∀ r ∈ s.cache.rows.strays chain, r.createdAt < chain.head.createdAt) :
    Device.Answers S (op.identity d) (.ok chain) s' := by
  obtain ⟨ht, hkeeps⟩ := keeps hs h
  refine answers_of_current hs h (fun chain' heq => ?_) (hkeeps.current_chain ht hno)
  cases heq
  exact hkeeps.serves.owned

theorem answers_ambiguous (hs : s.Sound S) (h : op.action S d s = (.ok chain, s'))
    (hpolicy : s.cache.policy = .reject) (hsome : s.cache.rows.strays chain ≠ []) :
    Device.Answers S (op.identity d)
      (.error (.ambiguousCards (op.identity d) ((s.cache.rows.strays chain).length + 1))) s' := by
  obtain ⟨ht, hkeeps⟩ := keeps hs h
  exact answers_of_current hs h nofun (hkeeps.current_ambiguous ht hpolicy hsome)

theorem answers_other (hs : s.Sound S) (h : op.action S d s = (.ok chain, s'))
    (hpolicy : s.cache.policy = .preferNewest) {r : CardRow} (hr : r ∈ s.cache.rows.strays chain)
    (hnewer : chain.head.createdAt < r.createdAt) :
    ∃ other : CardChain, other.head.id ≠ chain.head.id ∧
      Device.Answers S (op.identity d) (.ok other) s' := by
  obtain ⟨ht, hkeeps⟩ := keeps hs h
  obtain ⟨other, hne, howned, hcurrent⟩ := hkeeps.current_other ht hpolicy hr hnewer
  refine ⟨other, hne, answers_of_current hs h (fun chain' heq => ?_) hcurrent⟩
  cases heq
  exact howned

/-- A stray is a card that the directory no longer serves. -/
theorem withdrawn_of_stray (hs : s.Sound S) (h : op.action S d s = (.ok chain, s')) {r : CardRow}
    (hr : r ∈ s.cache.rows.strays chain) : ∃ l ∈ s'.listings.rows, l.id = r.id ∧ l.isCurrent = false := by
  obtain ⟨ht, hkeeps⟩ := keeps hs h
  obtain ⟨-, -, hri, hother⟩ := CardRows.mem_strays.1 hr
  obtain ⟨c, ⟨l, hl, hcl, -⟩, rfl⟩ := hkeeps.stored.coherent r (hkeeps.strays r hr)
  have hid : l.id = c.id := by
    rw [hcl]
    rfl
  refine ⟨l, hl, hid, Bool.eq_false_iff.2 fun hcurrent => ?_⟩
  -- of an identity the directory serves one card, which is the head of the chain
  obtain ⟨m, hm, hcard, hcurrent'⟩ := hkeeps.serves.listed
  have howned : l.card.identity = m.card.identity := by
    rw [hcard, ← hri, CardRow.ofCard_identity, hcl]
    rfl
  obtain rfl := ht.single l hl m hm hcurrent hcurrent' howned
  exact hother chain.head List.mem_cons_self ((congrArg Card.id hcard).symm.trans hid)

end Fetching

namespace Fleet

/-- After any run of a fleet, let a device get a card from elsewhere than its cache: by a lookup that
passes over the cache, or by registering or rotating its own key. Right afterwards the card is found in
the cache, unless the cache held a stray before: a card of the identity that it took for current, that
is not of the chain, and that the directory no longer serves. Where duplicates are refused, lookups then
fail and count the strays with the card. Where the newest card is preferred, the card is found if all
strays are older; of cards that were made at one time, nothing is said. -/
theorem found_after_fetching (S : CipherSuite) (tape : Tape) (now : Timestamp)
    (events : List FleetEvent) {m : Member} (hm : m ∈ (after S tape now events).members.rows)
    (op : Fetching) {chain : CardChain} {s' : Site}
    (h : op.action S m.device ((after S tape now events).site m) = (.ok chain, s')) :
    let identity := op.identity m.device
    let strays := m.cache.rows.strays chain
    ((m.cache.policy = .preferNewest → ∀ r ∈ strays, r.createdAt ≠ chain.head.createdAt) →
      (Device.Answers S identity (.ok chain) s' ↔ strays = [] ∨
        m.cache.policy = .preferNewest ∧ ∀ r ∈ strays, r.createdAt < chain.head.createdAt)) ∧
    (m.cache.policy = .reject → strays ≠ [] →
      Device.Answers S identity (.error (.ambiguousCards identity (strays.length + 1))) s') ∧
    ∀ r ∈ strays, ∃ l ∈ s'.listings.rows, l.id = r.id ∧ l.isCurrent = false := by
  intro identity strays
  have hs := (sound_after S tape now events).site hm
  refine ⟨fun hties => ⟨fun hanswers => ?_, Fetching.answers_chain hs h⟩,
    Fetching.answers_ambiguous hs h, fun r hr => Fetching.withdrawn_of_stray hs h hr⟩
  refine Decidable.or_iff_not_imp_left.2 fun hsome => ?_
  cases hpolicy : m.cache.policy with
  | reject =>
    have hrefused := Fetching.answers_ambiguous hs h hpolicy hsome
    cases hanswers.2.symm.trans hrefused.2
  | preferNewest =>
    refine ⟨rfl, fun r hr => ?_⟩
    refine Int64.not_le.1 fun hle => ?_
    have hnewer : chain.head.createdAt < r.createdAt :=
      Int64.lt_of_le_of_ne hle (Ne.symm (hties hpolicy r hr))
    obtain ⟨other, hid, hother⟩ := Fetching.answers_other hs h hpolicy hr hnewer
    cases hanswers.2.symm.trans hother.2
    exact absurd rfl hid

/-- A device that has just joined registers, and finds its card in the cache. -/
theorem found_after_registering :
    let alice : Device := .plain "alice"
    let f := after .transparent (.ofSeed 1) 1000 [.join "phone" alice "phone"]
    ∃ m ∈ f.members.rows, ∃ chain s',
      (Fetching.issue .register).action .transparent m.device (f.site m) = (.ok chain, s') ∧
        m.cache.rows.strays chain = [] ∧ Device.Answers .transparent "alice" (.ok chain) s' := by
  intro alice f
  have hmem : (⟨"phone", alice, .empty .reject, "phone"⟩ : Member) ∈ f.members.rows :=
    List.mem_cons_self
  have hok : ((Fetching.issue .register).action .transparent alice
      (f.site ⟨"phone", alice, .empty .reject, "phone"⟩)).1.isOk = true := by decide +kernel
  cases hrun : (Fetching.issue .register).action .transparent alice
      (f.site ⟨"phone", alice, .empty .reject, "phone"⟩) with
  | mk r s' =>
    rw [hrun] at hok
    cases r with
    | error e => cases hok
    | ok chain =>
      have h := (found_after_fetching .transparent (.ofSeed 1) 1000 [.join "phone" alice "phone"] hmem
        (.issue .register) hrun).1 nofun
      exact ⟨_, hmem, chain, s', hrun, rfl, h.2 (.inl rfl)⟩

/-- How many strays a device has beside the card of an identity that it fetches. -/
def countStrays (S : CipherSuite) (f : Fleet) (identity : String) (m : Member) : Nat :=
  match (Device.findUser S identity true (f.site m)).1 with
  | .ok chain => (m.cache.rows.strays chain).length
  | .error _ => 0

theorem exists_ambiguous {f : Fleet} (hf : f.Sound S) {name identity : String} {n : Nat}
    (h : (f.members.find? name).any (fun m =>
      m.cache.policy = .reject ∧ countStrays S f identity m = n + 1) = true) :
    ∃ m ∈ f.members.rows, m.name = name ∧ ∃ chain s',
      Device.findUser S identity true (f.site m) = (.ok chain, s') ∧
        Device.Answers S identity (.error (.ambiguousCards identity (n + 2))) s' := by
  obtain ⟨m, hm, hm'⟩ := (Option.any_eq_true _ _).1 h
  obtain ⟨hpolicy, hcount⟩ := of_decide_eq_true hm'
  have hs := hf.site (Table.mem_of_find? hm)
  unfold countStrays at hcount
  cases hrun : Device.findUser S identity true (f.site m) with
  | mk r s' =>
    rw [hrun] at hcount
    cases r with
    | error e => cases hcount
    | ok chain =>
      have hcount : (m.cache.rows.strays chain).length = n + 1 := hcount
      have hsome : m.cache.rows.strays chain ≠ [] := fun h => by rw [h] at hcount; cases hcount
      have hreload : (Fetching.reload identity).action S m.device (f.site m) = (.ok chain, s') := hrun
      have hanswers := Fetching.answers_ambiguous hs hreload hpolicy hsome
      have hsite : (f.site m).cache = m.cache := rfl
      rw [hsite, hcount] at hanswers
      exact ⟨m, Table.mem_of_find? hm, Table.key_of_find? hm, chain, s', hrun, hanswers⟩

/-- One device finds the card of another one, which then withdraws it and registers anew. The new card
is fetched, but not found in the cache afterwards. -/
theorem ambiguous_after_new_start :
    let alice : Device := .plain "alice"
    let bob : Device := .plain "bob"
    let events : List FleetEvent := [.join "phone" alice "phone", .join "desk" bob "desk",
      .act "phone" (.key (.issue .register)), .act "desk" (.findUser "alice" false),
      .act "phone" (.key .unregister), .clock 2000, .act "phone" (.key (.issue .register))]
    let f := after .transparent (.ofSeed 1) 1000 events
    ∃ m ∈ f.members.rows, m.name = "desk" ∧ ∃ chain s',
      Device.findUser .transparent "alice" true (f.site m) = (.ok chain, s') ∧
        Device.findCachedUser .transparent "alice" s' = (.error (.ambiguousCards "alice" 2), s') ∧
        Device.findUser .transparent "alice" false s' = (.error (.ambiguousCards "alice" 2), s') :=
  exists_ambiguous (sound_after _ _ _ _) (by decide +kernel)

end Fleet

end EndToEnd
