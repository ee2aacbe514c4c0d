/-
  Registering, rotating, unregistering and cleaning up.

  A site is sound if the directory obeys its own rules and the card cache agrees with it. Each
  operation ends in one of three ways (`Ends`): it fails and leaves directory, key slots and cache as
  they were; it fails because the suite does not seal the private key, after the card was published; or
  it is done, and then the site is still sound. The second way is closed where the suite locks what is
  asked of it.

  Proved:
  * `publish_run`: what publishing a card for a key comes to, from which registering and rotating follow.
  * `ends_withoutKey`, `ends_searched`: the two things that operations ask for first.
  * `register_run`, `registerWith_run`, `rotate_run`, `unregister_run`, `cleanUp_run`: how they end.
-/
import EndToEnd.Device
import EndToEnd.Proofs.KeyStore
import EndToEnd.Proofs.Lookup.Desk

namespace EndToEnd

variable {S : CipherSuite} {s s' s'' : Site}

namespace Site

/-- The listings of the directory. -/
def listings (s : Site) : Listings := s.directory.listings

/-- The directory obeys its rules, the cache agrees with it, and neither link nor cache fails a call
of its own accord. -/
structure Sound (S : CipherSuite) (s : Site) : Prop where
  listings : s.listings.Sound S
  clear : s.directory.Clear
  reliable : s.cache.Reliable
  coherent : s.cache.rows.Coherent s.listings

/-- Directory, key slots, card cache and clock are as they were. -/
structure Unmoved (s s' : Site) : Prop where
  listings : s'.listings = s.listings
  keys : s'.vault.keys = s.vault.keys
  cache : s'.cache = s.cache
  now : s'.now = s.now
  clear : s.directory.Clear → s'.directory.Clear

/-- The site is sound afterwards, and all that was listed still is. -/
structure Advances (S : CipherSuite) (s s' : Site) : Prop where
  sound : s'.Sound S
  grows : s.listings.Grows s'.listings

/-- The site is sound afterwards, and the directory's list is as it was. -/
structure Rests (S : CipherSuite) (s s' : Site) : Prop where
  sound : s'.Sound S
  listings : s'.listings = s.listings

theorem Rests.advances (h : s.Rests S s') : s.Advances S s' := by
  refine ⟨h.sound, ?_⟩
  rw [h.listings]
  exact .refl _

theorem Unmoved.refl (s : Site) : s.Unmoved s := ⟨rfl, rfl, rfl, rfl, id⟩

theorem Unmoved.trans (h : s.Unmoved s') (h' : s'.Unmoved s'') : s.Unmoved s'' :=
  ⟨h'.listings.trans h.listings, h'.keys.trans h.keys, h'.cache.trans h.cache,
    h'.now.trans h.now, fun hc => h'.clear (h.clear hc)⟩

theorem Sound.of_unmoved (hs : s.Sound S) (h : s.Unmoved s') : s'.Sound S where
  listings := by
    rw [h.listings]
    exact hs.listings
  clear := h.clear hs.clear
  reliable := by
    rw [h.cache]
    exact hs.reliable
  coherent := by
    rw [h.cache, h.listings]
    exact hs.coherent

theorem Unmoved.rests (h : s.Unmoved s') (hs : s.Sound S) : s.Rests S s' :=
  ⟨hs.of_unmoved h, h.listings⟩

theorem Advances.of_unmoved (h : s.Unmoved s') (h' : s'.Advances S s'') : s.Advances S s'' := by
  refine ⟨h'.sound, ?_⟩
  rw [← h.listings]
  exact h'.grows

/-- A search for an identity leaves all as it was, and finds what is served. -/
theorem search_run (hs : s.Sound S) (identity : String) :
    (∃ s', call (DirectoryLink.search identity) s = (.error Directory.unreachable, s') ∧
        s.Unmoved s') ∨
      ∃ s', call (DirectoryLink.search identity) s = (.ok (s.listings.current identity), s') ∧
        s.Unmoved s' ∧ s'.directory.directory.available = true := by
  rw [call, Action.on_run, DirectoryLink.search_run hs.clear]
  by_cases ha : s.directory.directory.available = true
  · rw [if_pos ha]
    exact .inr ⟨_, rfl, ⟨rfl, rfl, rfl, rfl, fun hc => hc.searched⟩, ha⟩
  · rw [if_neg ha]
    exact .inl ⟨_, rfl, .refl s⟩

theorem requireNoKey_run (identity : String) (s : Site) :
    inVault (Vault.requireNoKey identity) s =
      (if s.vault.keys.hasKey identity then .error .privateKeyExists else .ok (), s) := by
  rw [inVault, Action.on_run, Vault.requireNoKey_run]

/-- Drawing random octets leaves all else as it was. -/
theorem draw_run {α : Type} (x : Draw α) (s : Site) :
    ∃ a s', inVault (Vault.draw x) s = (.ok a, s') ∧ s.Unmoved s' ∧
      s'.directory.directory.available = s.directory.directory.available :=
  ⟨_, _, rfl, ⟨rfl, rfl, rfl, rfl, id⟩, rfl⟩

end Site

namespace Device

open Site

/-- The chain that publishing gives: the new card, and what it replaces. -/
def chainOf (c : Card) : Option CardChain → CardChain
  | none => .single c
  | some previous => .extend c previous.outdate

/-- What publishing a card may start from: an identity without current card, or with the one that is
to be replaced. -/
def Replaces (t : Listings) (identity : String) : Option CardChain → Prop
  | none => ∀ l ∈ t.rows, l.isCurrent = true → l.card.identity ≠ identity
  | some previous => t.Serves identity previous

theorem Replaces.serves {t : Listings} {identity : String} {previous : Option CardChain}
    (h : Replaces t identity previous) : ∀ chain, previous = some chain → t.Serves identity chain := by
  rintro chain rfl
  exact h

/-- A card for a key was published in place of the current one, with the time that it then gets. -/
def Listed (S : CipherSuite) (d : Device) (s : Site) (t' : Listings) : Prop :=
  ∃ key previous c, Replaces s.listings d.identity previous ∧ Listings.Published s.listings t' c ∧
    c.MadeFor S key d.identity (previous.map (·.head.id))
      (timeAfter s.now (previous.map (·.head.createdAt)))

/-- The current card was revoked. -/
def Withdrawn (d : Device) (s : Site) (t' : Listings) : Prop :=
  ∃ chain, s.listings.Serves d.identity chain ∧ s.listings.revoke chain.head.id = .ok t'

/-- How an operation may end. -/
inductive Ends {α : Type} (S : CipherSuite) (d : Device) (s : Site) (done : α → Site → Prop) :
    Except Error α × Site → Prop where
  /-- It fails and leaves all as it was. -/
  | refused {e : Error} {s' : Site} (h : s.Unmoved s') : Ends S d s done (.error e, s')
  /-- It fails because the private key cannot be sealed, after its card was published. -/
  | unsealed {e : Error} {s' : Site} (h : s.Advances S s') (listed : Listed S d s s'.listings)
      (hl : ¬ S.Locks (Utf8.encode (Vault.keySlot d.identity)) 64) : Ends S d s done (.error e, s')
  /-- It is done. -/
  | done {a : α} {s' : Site} (h : done a s') : Ends S d s done (.ok a, s')

/-- A card was issued for a key: the slot was empty and holds the key now, and the directory serves the
card with the chain that is given back. -/
structure Issued (S : CipherSuite) (d : Device) (s : Site) (chain : CardChain) (s' : Site) : Prop where
  advances : s.Advances S s'
  listed : Listed S d s s'.listings
  empty : s.vault.keys.hasKey d.identity = false
  stores : ∃ key : KeyPair, key.publicKey S = chain.head.publicKey ∧
    Vault.Stores S d.identity key s.vault.keys s'.vault.keys
  serves : s'.listings.Serves d.identity chain
  reachable : s'.directory.directory.available = true

variable {d : Device} {α : Type} {done : α → Site → Prop}

theorem Listed.of_unmoved {t' : Listings} (h : s.Unmoved s') (hl : Listed S d s' t') :
    Listed S d s t' := by
  unfold Listed at hl ⊢
  rwa [h.listings, h.now] at hl

theorem Issued.of_unmoved {chain : CardChain} (h : s.Unmoved s') (hi : Issued S d s' chain s'') :
    Issued S d s chain s'' where
  advances := hi.advances.of_unmoved h
  listed := hi.listed.of_unmoved h
  empty := by
    rw [← h.keys]
    exact hi.empty
  stores := by
    rw [← h.keys]
    exact hi.stores
  serves := hi.serves
  reachable := hi.reachable

/-- How an operation ends can be said of the state before what it did first, if that changed nothing. -/
theorem Ends.of_unmoved {done' : α → Site → Prop} {r : Except Error α × Site} (h : s.Unmoved s')
    (he : Ends S d s' done' r) (hd : ∀ a s'', done' a s'' → done a s'') : Ends S d s done r := by
  cases he with
  | refused h' => exact .refused (h.trans h')
  | unsealed h' listed hl => exact .unsealed (h'.of_unmoved h) (listed.of_unmoved h) hl
  | done h' => exact .done (hd _ _ h')

theorem Ends.mono {done' : α → Site → Prop} {r : Except Error α × Site} (he : Ends S d s done' r)
    (hd : ∀ a s', done' a s' → done a s') : Ends S d s done r := he.of_unmoved (.refl s) hd

/-- How an operation ends does not depend on whether its answer is looked at. -/
theorem Ends.silently {x : Action Site α} {done' : Unit → Site → Prop} (h : Ends S d s done (x s))
    (hd : ∀ a s', done a s' → done' () s') : Ends S d s done' (Action.silently x s) := by
  unfold Action.silently
  cases hr : x s with
  | mk r s' =>
    rw [hr] at h
    cases h with
    | refused h => exact .refused h
    | unsealed h listed hl => exact .unsealed h listed hl
    | done h => exact .done (hd _ _ h)

/-- However an operation ends, the site is sound afterwards. -/
theorem Ends.advances {r : Except Error α × Site} (h : Ends S d s (fun _ => s.Advances S) r)
    (hs : s.Sound S) : s.Advances S r.2 := by
  cases h with
  | refused h => exact (h.rests hs).advances
  | unsealed h _ _ => exact h
  | done h => exact h

/-- An operation that fails leaves all as it was, if the private key can be sealed. -/
theorem Ends.unmoved_of_error {r : Except Error α × Site} (h : Ends S d s done r)
    (hl : S.Locks (Utf8.encode (Vault.keySlot d.identity)) 64) {e : Error} (hr : r.1 = .error e) :
    s.Unmoved r.2 := by
  cases h with
  | refused h => exact h
  | unsealed _ _ hno => exact absurd hl hno
  | done _ => cases hr

/-- A card that was published for a key is served with its chain. -/
theorem serves_chainOf {t t' : Listings} {c : Card} {key : KeyPair} {time : Timestamp}
    {previous : Option CardChain} (hp : Listings.Published t t' c)
    (hm : c.MadeFor S key d.identity (previous.map (·.head.id)) time)
    (hr : ∀ chain, previous = some chain → t.Serves d.identity chain) :
    t'.Serves d.identity (chainOf c previous) := by
  cases previous with
  | none =>
    rw [← hm.identity]
    exact hp.serves_single hm.previousId hm.outdated
  | some previous => exact hp.serves_extend (hr previous rfl) hm.previousId hm.identity hm.outdated

/-- A site stays sound when a card that was made for a key is listed. -/
theorem sound_listing (hs : s.Sound S) {t : Listings} {c : Card} {key : KeyPair} {time : Timestamp}
    {previous : Option CardChain} (hp : Listings.Published s.listings t c)
    (hnamed : Text.isBlank d.identity = false)
    (hm : c.MadeFor S key d.identity (previous.map (·.head.id)) time)
    (hr : Replaces s.listings d.identity previous) :
    Site.Sound S { s with directory := s.directory.listing t } := by
  refine ⟨?_, hs.clear.listing t, hs.reliable, hs.coherent.mono hp.grows⟩
  apply hp.sound hs.listings hm.genuine
  · rw [hm.identity]
    exact hnamed
  · intro hnone
    rw [hm.identity]
    cases previous with
    | none => exact hr
    | some previous =>
      rw [hm.previousId] at hnone
      cases hnone

theorem publish_eq (S : CipherSuite) (d : Device) (key : KeyPair) (previous : Option CardChain) :
    d.publish S key previous = (do
      let createdAt := timeAfter (← get).now (previous.map (·.head.createdAt))
      let raw ← Action.lift
        (RawCard.generate S key d.identity (previous.map (·.head.id)) createdAt)
      let card ← call (DirectoryLink.publish S raw)
      inVault (Vault.storeKey S d.identity key)
      inCache (CardCache.storeChain (chainOf card previous))
      pure (chainOf card previous)) := by
  cases previous <;> rfl

/-- Once a card is published, its key is stored and its chain is cached, unless the key cannot be
sealed. -/
theorem keep_run (hs : s.Sound S) (hno : s.vault.keys.hasKey d.identity = false) (key : KeyPair)
    {chain : CardChain} (hchain : s.listings.Serves d.identity chain) :
    let keep : Action Site CardChain := do
      inVault (Vault.storeKey S d.identity key)
      inCache (CardCache.storeChain chain)
      pure chain
    ∃ s', s'.Sound S ∧ s'.directory = s.directory ∧
      (keep s = (.ok chain, s') ∧ Vault.Stores S d.identity key s.vault.keys s'.vault.keys ∨
        (∃ e, keep s = (.error e, s')) ∧ ¬ S.Locks (Utf8.encode (Vault.keySlot d.identity)) 64) := by
  intro keep
  rcases Vault.storeKey_run S hno key with ⟨v, hstore, hstores⟩ | ⟨e, tape, hstore, -, hl⟩
  · obtain ⟨rows, hcache, hstored⟩ :=
      CardCache.storeChain_run hs.reliable hs.listings.regular hs.coherent hchain.lists
    have hkey : inVault (Vault.storeKey S d.identity key) s = (.ok (), { s with vault := v }) := by
      rw [inVault, Action.on_run, hstore]
    have hcached : inCache (CardCache.storeChain chain) { s with vault := v } =
        (.ok (), { s with vault := v, cache := { s.cache with rows } }) := by
      rw [inCache, Action.on_run, hcache]
    refine ⟨{ s with vault := v, cache := { s.cache with rows } },
      ⟨hs.listings, hs.clear, hs.reliable.withRows rows, hstored.coherent⟩, rfl, .inl ⟨?_, hstores⟩⟩
    show (inVault (Vault.storeKey S d.identity key) >>= fun _ => _) s = _
    rw [Action.bind_ok hkey, Action.bind_ok hcached, Action.pure_run]
  · have hkey : inVault (Vault.storeKey S d.identity key) s =
        (.error e, { s with vault := ⟨s.vault.keys, tape⟩ }) := by
      rw [inVault, Action.on_run, hstore]
    exact ⟨{ s with vault := ⟨s.vault.keys, tape⟩ },
      ⟨hs.listings, hs.clear, hs.reliable, hs.coherent⟩, rfl, .inr ⟨⟨e, Action.bind_error hkey⟩, hl⟩⟩

/-- Publishing a card for a key where the slot is empty. -/
theorem publish_run (hs : s.Sound S) (hno : s.vault.keys.hasKey d.identity = false) (key : KeyPair)
    {previous : Option CardChain} (hr : Replaces s.listings d.identity previous) :
    Ends S d s (Issued S d s) (d.publish S key previous s) := by
  rw [publish_eq, Action.bind_ok (Action.get_run s)]
  cases hraw : RawCard.generate S key d.identity (previous.map (·.head.id))
      (timeAfter s.now (previous.map (·.head.createdAt))) with
  | error e =>
    rw [Action.bind_error (Action.lift_run _ _)]
    exact .refused (.refl s)
  | ok raw =>
    rw [Action.bind_ok (Action.lift_run _ _)]
    rcases DirectoryLink.publish_run S s.directory raw with ⟨e, hrun⟩ | ⟨c, t, hc, ht, ha, hrun⟩
    · have hcall : call (DirectoryLink.publish S raw) s = (.error e, s) := by
        rw [call, Action.on_run, hrun]
      rw [Action.bind_error hcall]
      exact .refused (.refl s)
    · have hcall : call (DirectoryLink.publish S raw) s =
          (.ok c, { s with directory := s.directory.listing t }) := by
        rw [call, Action.on_run, hrun]
      have hpublished := Listings.publish_ok ht
      have hmade := Card.madeFor_of_generate hraw hc
      have hserves := serves_chainOf hpublished hmade hr.serves
      have hsound := sound_listing hs hpublished (Card.generate_ok hraw).1 hmade hr
      rw [Action.bind_ok hcall]
      obtain ⟨s', hs', hd, hkept⟩ := keep_run hsound hno key hserves
      obtain rfl : t = s'.listings := by rw [Site.listings, hd]; rfl
      have hadvances : s.Advances S s' := ⟨hs', hpublished.grows⟩
      have hlisted : Listed S d s s'.listings := ⟨key, previous, c, hr, hpublished, hmade⟩
      rcases hkept with ⟨hrun, hstores⟩ | ⟨⟨e, hrun⟩, hl⟩
      · have hhead : (chainOf c previous).head = c := by cases previous <;> rfl
        rw [hrun]
        refine .done ⟨hadvances, hlisted, hno, ⟨key, ?_, hstores⟩, hserves, ?_⟩
        · rw [hhead, hmade.publicKey]
        · rw [hd]
          exact ha
      · rw [hrun]
        exact .unsealed hadvances hlisted hl

/-- An operation that wants the slot of the device empty is refused where there is a key. -/
theorem ends_withoutKey {x : Action Site α}
    (h : s.vault.keys.hasKey d.identity = false → Ends S d s done (x s)) :
    Ends S d s done ((do inVault (Vault.requireNoKey d.identity); x : Action Site α) s) := by
  have hguard := requireNoKey_run d.identity s
  cases hno : s.vault.keys.hasKey d.identity with
  | true =>
    rw [hno, if_pos rfl] at hguard
    rw [Action.bind_error hguard]
    exact .refused (.refl s)
  | false =>
    rw [hno, if_neg Bool.false_ne_true] at hguard
    rw [Action.bind_ok hguard]
    exact h hno

/-- An operation that looks up the current card of the device goes on with none or with the one that is
served, and is refused where the directory is out of reach. -/
theorem ends_searched (hs : s.Sound S) {f : List CardChain → Action Site α}
    (hnone : ∀ s₁, s.Unmoved s₁ → Replaces s.listings d.identity none → Ends S d s done (f [] s₁))
    (hone : ∀ s₁ chain, s.Unmoved s₁ → s₁.directory.directory.available = true →
      s.listings.Serves d.identity chain → Ends S d s done (f [chain] s₁)) :
    Ends S d s done ((call (DirectoryLink.search d.identity) >>= f) s) := by
  rcases search_run hs d.identity with ⟨s₁, hsearch, hunmoved⟩ | ⟨s₁, hsearch, hunmoved, ha⟩
  · rw [Action.bind_error hsearch]
    exact .refused hunmoved
  · rw [Action.bind_ok hsearch]
    rcases hs.listings.current_eq d.identity with ⟨hempty, hfirst⟩ | ⟨chain, hcurrent, hserves⟩
    · rw [hempty]
      exact hnone s₁ hunmoved hfirst
    · rw [hcurrent]
      exact hone s₁ chain hunmoved ha hserves

/-- Registering with a key. -/
theorem registerWith_run (hs : s.Sound S) (d : Device) (key : KeyPair) :
    Ends S d s (Issued S d s) (d.registerWith S key s) := by
  rw [registerWith]
  refine ends_withoutKey fun hno => ends_searched hs (fun s₁ hunmoved hfirst => ?_) ?_
  · have hno₁ : s₁.vault.keys.hasKey d.identity = false := by rw [hunmoved.keys, hno]
    have hr : Replaces s₁.listings d.identity none := by
      rw [hunmoved.listings]
      exact hfirst
    exact (publish_run (hs.of_unmoved hunmoved) hno₁ key hr).of_unmoved hunmoved
      fun _ _ => Issued.of_unmoved hunmoved
  · intro s₁ chain hunmoved _ _
    exact .refused hunmoved

/-- Registering with a new key. -/
theorem register_run (hs : s.Sound S) (d : Device) :
    Ends S d s (Issued S d s) (d.register S s) := by
  obtain ⟨key, s₁, hdraw, hunmoved, -⟩ := draw_run KeyPair.generate s
  rw [register, Action.bind_ok hdraw]
  exact (registerWith_run (hs.of_unmoved hunmoved) d key).of_unmoved hunmoved
    fun _ _ => Issued.of_unmoved hunmoved

/-- Rotating a key. -/
theorem rotate_run (hs : s.Sound S) (d : Device) : Ends S d s (Issued S d s) (d.rotate S s) := by
  rw [rotate]
  refine ends_withoutKey fun hno => ends_searched hs ?_ fun s₁ chain hunmoved _ hserves => ?_
  · intro s₁ hunmoved _
    exact .refused hunmoved
  · obtain ⟨key, s₂, hdraw, hdrawn, -⟩ := draw_run KeyPair.generate s₁
    have hmoved := hunmoved.trans hdrawn
    have hselect : (Action.lift (d.settings.duplicateCardPolicy.select d.identity [chain]) :
        Action Site CardChain) s₁ = (.ok chain, s₁) := rfl
    have hno₂ : s₂.vault.keys.hasKey d.identity = false := by rw [hmoved.keys, hno]
    have hr : Replaces s₂.listings d.identity (some chain) := by
      rw [hmoved.listings]
      exact hserves
    dsimp only
    rw [Action.bind_ok hselect, Action.bind_ok hdraw]
    exact (publish_run (hs.of_unmoved hmoved) hno₂ key hr).of_unmoved hmoved
      fun _ _ => Issued.of_unmoved hmoved

/-- Deleting the key of an identity. -/
theorem deleteKey_run (d : Device) (s : Site) :
    inVault (Vault.deleteKey d.identity) s = (.ok (s.vault.keys.hasKey d.identity),
      { s with vault.keys.slots := s.vault.keys.slots.erase (Vault.keySlot d.identity) }) := rfl

/-- Unregistering revokes the one current card and forgets the key and all cards. -/
theorem unregister_run (hs : s.Sound S) (d : Device) :
    Ends S d s (fun _ s' => s.Advances S s' ∧ d.Withdrawn s s'.listings) (d.unregister s) := by
  rw [unregister]
  refine ends_searched hs ?_ fun s₁ chain hunmoved ha hserves => ?_
  · intro s₁ hunmoved _
    exact .refused hunmoved
  · obtain ⟨l, hl, hcard, -⟩ := hserves.listed
    have hid : chain.head.id = l.id := (congrArg Card.id hcard).symm
    obtain ⟨t, ht⟩ := Listings.revoke_listed hl
    rw [← hid] at ht
    have hrevoke : call (DirectoryLink.revoke chain.head.id) s₁ =
        (.ok (), { s₁ with directory := s₁.directory.listing t }) := by
      have ht₁ : s₁.directory.listings.revoke chain.head.id = .ok t := by
        rw [show s₁.directory.listings = s.listings from hunmoved.listings]
        exact ht
      rw [call, Action.on_run, DirectoryLink.revoke_run ha ht₁]
    dsimp only
    rw [Action.bind_run, Action.each_singleton, hrevoke]
    dsimp only
    rw [Action.bind_ok (deleteKey_run d _)]
    refine .done ⟨⟨⟨?_, (hunmoved.clear hs.clear).listing t, ?_, ?_⟩, ?_⟩, chain, hserves, ht⟩
    · exact Listings.revoke_sound hs.listings ht
    · exact (hs.of_unmoved hunmoved).reliable.withRows _
    · exact CardRows.coherent_empty _
    · exact Listings.revoke_grows ht

/-- Cleaning up forgets the key and all cards, if there is a key. -/
theorem cleanUp_run (hs : s.Sound S) (d : Device) :
    Ends S d s (fun _ => s.Rests S) (d.cleanUp s) := by
  rw [cleanUp, Action.bind_ok (deleteKey_run d s)]
  cases hkey : s.vault.keys.hasKey d.identity with
  | true =>
    refine .done ⟨⟨hs.listings, hs.clear, hs.reliable.withRows _, ?_⟩, rfl⟩
    exact CardRows.coherent_empty _
  | false =>
    refine .refused ⟨rfl, ?_, rfl, rfl, id⟩
    show KeyStore.mk (s.vault.keys.slots.erase _) s.vault.keys.sealing = s.vault.keys
    rw [Table.erase_of_not_has hkey]

end Device

end EndToEnd
