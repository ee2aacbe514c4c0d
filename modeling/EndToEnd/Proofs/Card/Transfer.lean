/-
  Chains of cards that are taken from one place to another.

  A chain that was read from a cache or served by a directory is made of genuine cards, each of which
  names the next one, an older and marked card of its identity (`Successive`). Storing them oldest first
  marks what is marked already and nothing else, so each is written as it is; and the walk back from the
  newest one, which is ended by what is missing, then ends where the chain does.

  Proved:
  * `CardCache.store_successive`: such cards are stored as they are.
  * `CardRows.walks_successive`: from the newest one leads the way back over all others.
  * `CardRows.Filed.successive`, `Listings.Serves.successive`: chains that are read, and that are served,
    are of this form.
  * `CardCache.chains_transfer`: a new cache takes every such chain and gives it back.
-/
import EndToEnd.Proofs.Card.Verified
import EndToEnd.Proofs.Directory.History

namespace EndToEnd

variable {S : CipherSuite}

/-- Cards of a chain, newest first: each is genuine and names the next one, which is an older, marked
card of its identity; none has the id of a later one, and one that a later one names is marked. -/
inductive Successive (S : CipherSuite) : List Card → Prop
  | last {c : Card} (genuine : c.Genuine S) : Successive S [c]
  | before {c p : Card} {cs : List Card} (genuine : c.Genuine S) (linked : c.previousId = some p.id)
      (owned : p.identity = c.identity) (older : p.createdAt < c.createdAt)
      (replaced : p.outdated = true) (distinct : ∀ d ∈ p :: cs, d.id ≠ c.id)
      (named : ∀ d ∈ p :: cs, d.previousId = some c.id → c.outdated = true)
      (rest : Successive S (p :: cs)) : Successive S (c :: p :: cs)

namespace Successive

theorem genuine {cards : List Card} (h : Successive S cards) : ∀ c ∈ cards, c.Genuine S := by
  induction h with
  | last hg =>
    intro c hc
    rw [List.mem_singleton.1 hc]
    exact hg
  | before hg _ _ _ _ _ _ _ ih =>
    intro c hc
    rcases List.mem_cons.1 hc with rfl | hc
    · exact hg
    · exact ih c hc

theorem unlike_head {c : Card} {cs : List Card} (h : Successive S (c :: cs)) :
    ∀ d ∈ cs, d.id ≠ c.id := by
  cases h with
  | last => exact nofun
  | before _ _ _ _ _ hdistinct _ _ => exact hdistinct

/-- Cards with the links of a chain are of this form. -/
theorem of_linked {identity : String} {c : Card} {cs : List Card} (hg : ∀ d ∈ c :: cs, d.Genuine S)
    (howned : ∀ d ∈ c :: cs, d.identity = identity)
    (hlinked : ∀ p ∈ (c :: cs).zip cs, p.1.previousId = some p.2.id)
    (hfalling : ((c :: cs).map (·.createdAt)).Pairwise (· > ·))
    (hdistinct : ((c :: cs).map (·.id)).Nodup) (hreplaced : ∀ d ∈ cs, d.outdated = true)
    (hnamed : ∀ d ∈ c :: cs, ∀ e ∈ c :: cs, d.previousId = some e.id → d.id ≠ e.id →
      e.outdated = true) : Successive S (c :: cs) := by
  induction cs generalizing c with
  | nil => exact .last (hg c List.mem_cons_self)
  | cons p cs ih =>
    have htail : ∀ d ∈ p :: cs, d ∈ c :: p :: cs := fun d => List.mem_cons_of_mem c
    rw [List.map_cons, List.pairwise_cons] at hfalling
    rw [List.map_cons, List.nodup_cons] at hdistinct
    have hunlike : ∀ d ∈ p :: cs, d.id ≠ c.id := fun d hd hid =>
      hdistinct.1 (List.mem_map.2 ⟨d, hd, hid⟩)
    rw [List.zip_cons_cons] at hlinked
    refine .before (hg c List.mem_cons_self) (hlinked (c, p) List.mem_cons_self) ?_ ?_
      (hreplaced p List.mem_cons_self) hunlike ?_ ?_
    · exact (howned p (htail p List.mem_cons_self)).trans (howned c List.mem_cons_self).symm
    · exact hfalling.1 _ (List.mem_map.2 ⟨p, List.mem_cons_self, rfl⟩)
    · exact fun d hd hnames => hnamed d (htail d hd) c List.mem_cons_self hnames (hunlike d hd)
    · exact ih (fun d hd => hg d (htail d hd)) (fun d hd => howned d (htail d hd))
        (fun q hq => hlinked q (List.mem_cons_of_mem _ hq)) hfalling.2 hdistinct.2
        (fun d hd => hreplaced d (List.mem_cons_of_mem _ hd))
        fun d hd e he => hnamed d (htail d hd) e (htail e he)

end Successive

/-! ## Storing -/

namespace CardRows

variable {t : CardRows} {c : Card}

/-- A new card whose predecessor is an older, marked card of its identity is not refused, and changes no
row but its own. A card that a row names has to be marked, since it is written so. -/
theorem adopt_new (hnew : ∀ r ∈ t.rows, r.id ≠ c.id)
    (hprevious : ∀ r ∈ t.rows, c.previousId = some r.id →
      r.identity = c.identity ∧ r.createdAt < c.createdAt ∧ r.outdated = true)
    (hnamed : ∀ r ∈ t.rows, r.previousId = some c.id → c.outdated = true) :
    t.refusal c = none ∧ ∀ r, r ∈ (t.adopt c).rows ↔ r = CardRow.ofCard c ∨ r ∈ t.rows := by
  have hmark : t.mark c = c.outdated := by
    have hunknown : t.find? c.id = none := Table.find?_eq_none_iff.2 hnew
    rw [mark, hunknown, Option.any_none, Bool.or_false]
    cases hc : c.outdated with
    | true => rfl
    | false =>
      rw [Bool.false_or, Bool.eq_false_iff]
      intro hnames
      obtain ⟨r, hr, -, -, hnames⟩ := names_eq_true.1 hnames
      rw [hnamed r hr hnames] at hc
      cases hc
  have hfacing : ∀ r ∈ t.rows, r.facing c = r := by
    intro r hr
    unfold CardRow.facing
    split
    · rename_i hnames
      exact CardRow.outdate_of_outdated (hprevious r hr hnames).2.2
    · rfl
  constructor
  · refine refusal_eq_none.2 fun p hp => ?_
    obtain ⟨hnames, hmem⟩ := predecessor?_eq_some.1 hp
    obtain ⟨howned, holder, -⟩ := hprevious p hmem hnames
    exact ⟨howned, holder⟩
  · intro r
    rw [mem_adopt, hmark]
    refine or_congr_right ?_
    constructor
    · rintro ⟨p, hp, -, rfl⟩
      rw [hfacing p hp]
      exact hp
    · exact fun hr => ⟨r, hr, hnew r hr, (hfacing r hr).symm⟩

end CardRows

/-- Stored oldest first into a cache without rows, the cards are all that it then has, each as it is. -/
theorem CardCache.store_successive {cards : List Card} (h : Successive S cards) {k : CardCache}
    (hk : k.Reliable) (hempty : k.rows = .empty) : ∃ rows : CardRows,
      Action.each store cards.reverse k = (.ok (), { k with rows }) ∧
        ∀ r, r ∈ rows.rows ↔ ∃ c ∈ cards, r = CardRow.ofCard c := by
  induction h with
  | @last c _ =>
    have hnone : ∀ r, r ∉ k.rows.rows := by
      rw [hempty]
      exact fun r => List.not_mem_nil
    obtain ⟨hrefusal, hrows⟩ : k.rows.refusal c = none ∧
        ∀ r, r ∈ (k.rows.adopt c).rows ↔ r = CardRow.ofCard c ∨ r ∈ k.rows.rows :=
      CardRows.adopt_new (fun r hr => absurd hr (hnone r)) (fun r hr => absurd hr (hnone r))
        fun r hr => absurd hr (hnone r)
    refine ⟨k.rows.adopt c, ?_, fun r => ?_⟩
    · rw [List.reverse_singleton, Action.each_singleton, store_of_not_refused hk hrefusal]
    · rw [hrows, or_iff_left (hnone r)]
      simp
  | @before c p cs _ hlinked howned holder hreplaced hdistinct hnamed _ ih =>
    obtain ⟨rows, hrun, hrows⟩ := ih
    have hp : CardRow.ofCard p ∈ rows.rows := (hrows _).2 ⟨p, List.mem_cons_self, rfl⟩
    have hnew : ∀ r ∈ rows.rows, r.id ≠ c.id := by
      intro r hr
      obtain ⟨d, hd, rfl⟩ := (hrows r).1 hr
      exact hdistinct d hd
    have hprevious : ∀ r ∈ rows.rows, c.previousId = some r.id →
        r.identity = c.identity ∧ r.createdAt < c.createdAt ∧ r.outdated = true := by
      intro r hr hnames
      -- ids tell rows apart, so this is the row of the next card
      rw [hlinked] at hnames
      obtain rfl := Table.eq_of_key_eq hp hr (Option.some.inj hnames)
      exact ⟨howned, holder, hreplaced⟩
    have hnames : ∀ r ∈ rows.rows, r.previousId = some c.id → c.outdated = true := by
      intro r hr hnames
      obtain ⟨d, hd, rfl⟩ := (hrows r).1 hr
      exact hnamed d hd hnames
    obtain ⟨hrefusal, hadopt⟩ := CardRows.adopt_new hnew hprevious hnames
    refine ⟨rows.adopt c, ?_, fun r => ?_⟩
    · rw [List.reverse_cons, Action.each_append, Action.bind_ok hrun, Action.each_singleton]
      exact store_of_not_refused (hk.withRows rows) hrefusal
    · rw [hadopt, hrows]
      constructor
      · rintro (rfl | ⟨d, hd, rfl⟩)
        · exact ⟨c, List.mem_cons_self, rfl⟩
        · exact ⟨d, List.mem_cons_of_mem _ hd, rfl⟩
      · rintro ⟨d, hd, rfl⟩
        rcases List.mem_cons.1 hd with rfl | hd
        · exact .inl rfl
        · exact .inr ⟨d, hd, rfl⟩

/-! ## Reading -/

/-- Where the rows are those of the cards, the way back from each card leads over all that come behind
it, and ends with the last one. -/
theorem CardRows.walks_successive {t : CardRows} {cards : List Card} (hcards : Successive S cards)
    (hrows : ∀ r, r ∈ t.rows ↔ ∃ c ∈ cards, r = CardRow.ofCard c) {c : Card} {cs : List Card}
    (h : Successive S (c :: cs)) {visited : List String} (hbehind : ∀ d ∈ cs, d ∈ cards)
    (hmet : c.id ∈ visited) (hnew : ∀ d ∈ cs, d.id ∉ visited)
    (hall : ∀ d ∈ cards, d.id ∈ visited ∨ d ∈ cs) : t.Walks S visited c cs := by
  induction cs generalizing c visited with
  | nil =>
    cases hprevious : c.previousId with
    | none => exact .stop (.first hprevious)
    | some id =>
      by_cases hid : id ∈ visited
      · exact .stop (.repeated id hprevious hid)
      · refine .stop (.missing id hprevious (Table.find?_eq_none_iff.2 fun r hr hkey => ?_))
        obtain ⟨d, hd, rfl⟩ := (hrows r).1 hr
        rcases hall d hd with hd | hd
        · exact hid (hkey ▸ hd)
        · cases hd
  | cons p cs ih =>
    cases h with
    | before _ hlinked howned holder _ _ _ hrest =>
      have hp : p ∈ cards := hbehind p List.mem_cons_self
      have hread : t.Reads S p :=
        ⟨_, Table.find?_key ((hrows _).2 ⟨p, hp, rfl⟩), CardRow.toCard_ofCard (hcards.genuine p hp), rfl⟩
      refine .next hlinked (hnew p List.mem_cons_self) hread howned holder ?_
      refine ih hrest (fun d hd => hbehind d (List.mem_cons_of_mem _ hd)) List.mem_cons_self ?_ ?_
      · intro d hd hseen
        rcases List.mem_cons.1 hseen with hid | hseen
        · exact hrest.unlike_head d hd hid
        · exact hnew d (List.mem_cons_of_mem _ hd) hseen
      · intro d hd
        rcases hall d hd with hseen | hd
        · exact .inl (List.mem_cons_of_mem _ hseen)
        · rcases List.mem_cons.1 hd with rfl | hd
          · exact .inl List.mem_cons_self
          · exact .inr hd

namespace CardCache

/-- A new cache takes the chain, gives it back as it is, and has its cards only. -/
def Arrives (S : CipherSuite) (policy : DuplicatePolicy) (chain : CardChain) : Prop :=
  ∃ k, storeChain chain (.empty policy) = (.ok (), k) ∧
    get S chain.head.id k = (.ok (some chain), k) ∧
    ∀ r, r ∈ k.rows.rows ↔ ∃ c ∈ chain.cards, r = CardRow.ofCard c

theorem arrives_of_successive (policy : DuplicatePolicy) {chain : CardChain}
    (h : Successive S chain.cards) : Arrives S policy chain := by
  obtain ⟨rows, hrun, hrows⟩ := store_successive h (reliable_empty policy) rfl
  have hk := (reliable_empty policy).withRows rows
  have hhead : chain.head ∈ chain.cards := List.mem_cons_self
  have hread : rows.Reads S chain.head :=
    ⟨_, Table.find?_key ((hrows _).2 ⟨_, hhead, rfl⟩), CardRow.toCard_ofCard (h.genuine _ hhead), rfl⟩
  refine ⟨_, hrun, get_of_walks hk hread ?_, hrows⟩
  refine CardRows.walks_successive h hrows h (fun d hd => List.mem_cons_of_mem _ hd)
    List.mem_cons_self (fun d hd hid => ?_) fun d hd => ?_
  · exact h.unlike_head d hd (List.mem_singleton.1 hid)
  · rcases List.mem_cons.1 hd with rfl | hd
    · exact .inl List.mem_cons_self
    · exact .inr hd

end CardCache

/-! ## Chains that are read and chains that are served -/

/-- A chain that is read where only stores and resets have written. -/
theorem CardRows.Filed.successive {t : CardRows} {cards : List Card} (h : t.Filed cards)
    (hg : ∀ c ∈ cards, c.Genuine S) {chain : CardChain} (hchain : t.Resolves S chain) :
    Successive S chain.cards := by
  refine .of_linked (fun c hc => (hchain.read c hc).genuine) hchain.owned hchain.linked
    hchain.falling hchain.distinct (h.outdated_of_resolves hg hchain) ?_
  intro d hd e he hnames hne
  exact h.named _ (h.ofCard_of_reads hg (hchain.read d hd)) _
    (h.ofCard_of_reads hg (hchain.read e he)) hnames hne
    ((hchain.owned d hd).trans (hchain.owned e he).symm)

namespace Listings

variable {t : Listings} {identity : String}

/-- Each card names the next one, and the first of them is the one that is named. -/
theorem Descends.linked {newer : Timestamp} {id? : Option String} {cs : List Card}
    (h : t.Descends identity newer id? cs) {c : Card} (hc : c.previousId = id?) :
    ∀ p ∈ (c :: cs).zip cs, p.1.previousId = some p.2.id := by
  induction h generalizing c with
  | done => exact nofun
  | step _ _ _ _ _ ih =>
    intro p hp
    rw [List.zip_cons_cons] at hp
    rcases List.mem_cons.1 hp with rfl | hp
    · exact hc
    · exact ih rfl p hp

/-- A chain that is served. -/
theorem Serves.successive {chain : CardChain} (h : t.Serves identity chain) (hs : t.Regular S) :
    Successive S chain.cards := by
  have hlisted : ∀ c ∈ chain.cards, ∃ l ∈ t.rows, l.card = c := by
    intro c hc
    obtain ⟨l, hl, hcard, -⟩ := h.mem hc
    exact ⟨l, hl, hcard⟩
  have hdistinct : (chain.cards.map (·.id)).Nodup := by
    refine List.pairwise_map.2 (h.falling.older.imp_of_mem fun hc hd holder hid => ?_)
    rw [h.falling.distinct _ hc _ hd hid] at holder
    exact Int64.lt_irrefl holder
  have howned : ∀ c ∈ chain.cards, c.identity = identity := by
    intro c hc
    obtain ⟨-, -, -, howned⟩ := h.mem hc
    exact howned
  refine .of_linked (fun c hc => ?_) howned (h.descends.linked rfl)
    (List.pairwise_map.2 h.falling.older) hdistinct (fun c hc => ?_) ?_
  · obtain ⟨l, hl, rfl⟩ := hlisted c hc
    exact hs.genuine l hl
  · obtain ⟨-, -, -, -, -, hreplaced⟩ := h.descends.mem hc
    exact hreplaced
  · intro d hd e he hnames _
    obtain ⟨l, hl, rfl⟩ := hlisted d hd
    obtain ⟨m, hm, rfl⟩ := hlisted e he
    exact (hs.ordered.of_named hl hm hnames).2.2

end Listings

namespace DirectoryHistory

/-- Calls keep listings regular. -/
theorem regular_step {h : DirectoryHistory} (hs : h.listings.Regular S) (call : Directory.Call) :
    (h.step S call).listings.Regular S := by
  unfold step
  cases call with
  | publish raw =>
    rw [Directory.Call.run, Action.silently]
    rcases Directory.publish_run S h.directory raw with ⟨e, hrun⟩ | ⟨c, t, hc, ht, -, hrun⟩
    · rw [hrun]
      exact hs
    · rw [hrun]
      exact (Listings.publish_ok ht).regular hs (Card.genuine_of_ofRaw hc).1
  | revoke id =>
    rcases Directory.Call.run_cases S h.directory (.revoke id) with ⟨e, hrun⟩ | ⟨d, hrun, htakes⟩
    · rw [hrun]
      exact hs
    · rw [hrun]
      cases htakes with
      | revoke ht => exact Listings.revoke_regular hs ht

/-- After any calls the listings are regular. -/
theorem regular_ofCalls (S : CipherSuite) (calls : List Directory.Call) :
    (ofCalls S calls).listings.Regular S := by
  have hrun : ∀ h : DirectoryHistory, h.listings.Regular S →
      (calls.foldl (step S) h).listings.Regular S := by
    induction calls with
    | nil => exact fun _ hs => hs
    | cons call calls ih => exact fun _ hs => ih _ (regular_step hs call)
  exact hrun _ (Listings.regular_empty S)

end DirectoryHistory

namespace CardCache

/-- Chains are taken from one place to another as they are. A chain may come from a cache that started
without rows and was changed only by stores of genuine cards and by resets, some of which may have
failed, where it was got by its id or found by a search; or from a directory to which cards were
published and from which some were revoked, where it was found by a search. Storing it in a new cache
succeeds, getting its head by its id then gives the same chain, marks and all that lies behind it
included, and no other card is there. -/
theorem chains_transfer (S : CipherSuite) (policy : DuplicatePolicy) :
    (∀ (k : CardCache) (steps : List CacheStep), k.rows = .empty →
      (∀ c ∈ steps.flatMap CacheStep.cards, c.Genuine S) → ∀ k' : CardCache,
        (∀ id chain, get S id (k.after steps) = (.ok (some chain), k') → Arrives S policy chain) ∧
        ∀ identities chains, search S identities (k.after steps) = (.ok chains, k') →
          ∀ chain ∈ chains, Arrives S policy chain) ∧
    ∀ (calls : List Directory.Call) identity found d,
      Directory.search identity (DirectoryHistory.ofCalls S calls).directory = (.ok found, d) →
        ∀ chain ∈ found, Arrives S policy chain := by
  refine ⟨fun k steps hk hg k' => ?_, fun calls identity found d hsearch chain hchain => ?_⟩
  · have hempty : k.rows.Filed (steps.flatMap CacheStep.cards) := by
      rw [hk]
      exact CardRows.filed_empty _
    have hfiled := after_filed hempty (List.Subset.refl _)
    constructor
    · intro id chain hget
      exact arrives_of_successive policy (hfiled.successive hg (resolves_of_get hget).1)
    · intro identities chains hsearch chain hchain
      exact arrives_of_successive policy
        (hfiled.successive hg (resolves_of_search hsearch chain hchain))
  · have hs := DirectoryHistory.regular_ofCalls S calls
    have hu : (DirectoryHistory.ofCalls S calls).Upheld :=
      DirectoryHistory.upheld_foldl DirectoryHistory.upheld_empty calls
    rw [Directory.search_run hu.available] at hsearch
    cases hsearch
    exact arrives_of_successive policy ((hs.ordered.serves_of_current hchain).successive hs)

/-- A first card is all that a directory serves of its identity, once it is published. -/
theorem search_of_first {c : Card} (hg : c.Genuine S) (hcurrent : c.outdated = false)
    (hfirst : c.previousId = none) (hnamed : Text.isBlank c.identity = false) : ∃ d,
      Directory.search c.identity (DirectoryHistory.ofCalls S [.publish c.raw]).directory =
        (.ok [.single c], d) := by
  have hraw : Card.ofRaw S c.raw = .ok c := by
    rw [hg, ← hcurrent]
  have hpublish : Listings.publish .empty c = .ok (Table.empty.insert ⟨c, false⟩) := by
    rw [Listings.publish, Listings.replacePredecessor, hfirst]
    rfl
  have hp := Listings.publish_ok hpublish
  have hserves := hp.serves_single hfirst hcurrent
  have hsound := hp.sound (Listings.sound_empty S) hg hnamed fun _ l hl =>
    absurd hl List.not_mem_nil
  have hdirectory : (DirectoryHistory.ofCalls S [.publish c.raw]).directory =
      { Directory.empty with listings := Table.empty.insert ⟨c, false⟩ } := by
    have hstep : Publication.step S ⟨.empty, []⟩ c.raw = _ :=
      Publication.step_accepted rfl hraw hpublish
    have hraws := DirectoryHistory.directory_ofRaws S [c.raw]
    rw [Publication.ofRaws, List.foldl_cons, hstep] at hraws
    exact hraws
  rw [hdirectory, Directory.search_run rfl, hsound.current_of_serves hserves]
  exact ⟨_, rfl⟩

/-- A card with the one that it replaces, and a card that was published. -/
theorem transfer_of_replacement :
    let first := CacheRun.cardOfAlice 1 none
    let second := CacheRun.cardOfAlice 2 (some first.id)
    let chain : CardChain := ⟨second, [first.marked true]⟩
    (∃ k, get .transparent second.id ((empty .reject).after [.storeChain chain]) =
      (.ok (some chain), k)) ∧ Arrives .transparent .preferNewest chain ∧
    (∃ d, Directory.search "alice"
      (DirectoryHistory.ofCalls .transparent [.publish first.raw]).directory =
        (.ok [.single first], d)) ∧ Arrives .transparent .preferNewest (.single first) := by
  intro first second chain
  obtain ⟨hcaches, hdirectories⟩ := chains_transfer .transparent .preferNewest
  have hfirst : first.Genuine .transparent := CacheRun.genuine_cardOfAlice _ _
  have hsecond : second.Genuine .transparent := CacheRun.genuine_cardOfAlice _ _
  have hsuccessive : Successive .transparent chain.cards := by
    refine .before hsecond rfl rfl (by decide) rfl ?_ ?_ (.last (hfirst.marked true))
    · intro d hd
      rw [List.mem_singleton.1 hd]
      exact CacheRun.id_cardOfAlice_ne
    · intro d hd hnames
      rw [List.mem_singleton.1 hd] at hnames
      cases hnames
  obtain ⟨k, hstore, hget, -⟩ := arrives_of_successive .reject hsuccessive
  have hafter : (empty .reject).after [.storeChain chain] = k := congrArg Prod.snd hstore
  obtain ⟨d, hsearch⟩ := search_of_first hfirst rfl rfl (by decide)
  have hgenuine : ∀ c ∈ [CacheStep.storeChain chain].flatMap CacheStep.cards,
      c.Genuine .transparent := by
    intro c hc
    rcases List.mem_cons.1 hc with rfl | hc
    · exact hsecond
    · rw [List.mem_singleton.1 hc]
      exact hfirst.marked true
  rw [← hafter] at hget
  exact ⟨⟨_, hget⟩, (hcaches (empty .reject) _ rfl hgenuine _).1 _ _ hget, ⟨d, hsearch⟩,
    hdirectories _ _ _ _ hsearch _ List.mem_cons_self⟩

end CardCache

end EndToEnd
