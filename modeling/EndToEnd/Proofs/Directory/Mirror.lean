/-
  A cache to which all cards of a directory were stored agrees with it.

  The cards may come in any order and more than once, each as the directory returned it when it was
  published. None is refused, and afterwards the rows of the cache are the listings of the directory
  (`Mirrors`), although the two mark replaced cards in different ways. Hence both know the same current
  cards, walk back from a card over the same predecessors, and choose alike among several current
  cards of one identity.

  Proved:
  * `Publication.Faithful.mirrors`: once all accepted cards are stored, the rows are the listings.
  * `CardRows.Mirrors.get_run`: a listed card is read with the chain that it is served with.
  * `CardRows.Mirrors.exists_choice`: a policy chooses alike among rows and among chains.
  * `Publication.agrees_once_stored`: the cache and the directory agree.
-/
import EndToEnd.Lookup
import EndToEnd.Proofs.Card.Recall
import EndToEnd.Proofs.Directory.Publish

namespace EndToEnd

variable {S : CipherSuite} {identity : String}

/-- The rows of the cache are the rows of the listed cards. -/
def CardRows.Mirrors (rows : CardRows) (t : Listings) : Prop :=
  ∀ r, r ∈ rows.rows ↔ ∃ l ∈ t.rows, r = CardRow.ofCard l.card

namespace Publication.Faithful

variable {p : Publication} {rows : CardRows} {taken : List Card}

/-! ## Storing what was accepted -/

/-- The cached predecessor of an accepted card was accepted too, so the card is not refused for it. -/
theorem refusal_eq_none (h : p.Faithful S) (hr : Recorded rows taken) (ht : taken ⊆ p.accepted)
    {c : Card} (hc : c ∈ p.accepted) : rows.refusal c = none := by
  rw [CardRows.refusal_eq_none]
  intro r hpredecessor
  obtain ⟨hid, hmem⟩ := CardRows.predecessor?_eq_some.1 hpredecessor
  obtain ⟨d, hd, hdescribes⟩ := hr.describes r hmem
  obtain ⟨l, hl, rfl⟩ := (h.accepted c).1 hc
  obtain ⟨m, hm, rfl⟩ := (h.accepted d).1 (ht hd)
  rw [hdescribes.id] at hid
  rw [hdescribes.identity, hdescribes.createdAt]
  obtain ⟨howned, holder, -⟩ := h.ordered.of_named hl hm hid
  exact ⟨howned, holder⟩

theorem card_distinct (h : p.Faithful S) (ht : taken ⊆ p.accepted) : Card.Distinct taken := by
  intro c hc d hd hid
  obtain rfl := h.distinct_accepted c (ht hc) d (ht hd) hid
  exact ⟨rfl, rfl, rfl, rfl⟩

/-- Accepted cards are stored one after the other, and none is refused. -/
theorem each_store_run (h : p.Faithful S) {k : CardCache} (hk : k.Reliable)
    (hr : Recorded k.rows taken) {order : List Card} (ht : taken ++ order ⊆ p.accepted) :
    ∃ rows, Action.each CardCache.store order k = (.ok (), { k with rows }) ∧
      Recorded rows (taken ++ order) := by
  induction order generalizing k taken with
  | nil => exact ⟨k.rows, rfl, by rwa [List.append_nil]⟩
  | cons c order ih =>
    rw [List.append_cons] at ht ⊢
    have htaken : taken ++ [c] ⊆ p.accepted := fun d hd => ht (List.mem_append_left _ hd)
    have hc : c ∈ p.accepted := htaken (List.mem_append_right _ List.mem_cons_self)
    have hnone := h.refusal_eq_none hr (fun d hd => htaken (List.mem_append_left _ hd)) hc
    have hnext : Recorded (k.rows.adopt c) (taken ++ [c]) := hr.adopt (h.card_distinct htaken) hnone
    obtain ⟨rows, hrun, hrows⟩ := ih (hk.withRows (k.rows.adopt c)) hnext ht
    refine ⟨rows, ?_, hrows⟩
    rw [Action.each_cons, Action.bind_ok (CardCache.store_of_not_refused hk hnone), hrun]

/-- The row of a card that was taken unmarked is marked exactly where its listing is. -/
theorem outdated_eq (h : p.Faithful S) (hr : Recorded rows taken)
    (ht : ∀ c, c ∈ taken ↔ c ∈ p.accepted) {l : Listing} (hl : l ∈ p.listings.rows) {r : CardRow}
    (hmem : r ∈ rows.rows) (hid : r.id = l.id) (howned : r.identity = l.card.identity) :
    r.outdated = l.card.outdated := by
  rw [Bool.eq_iff_iff, hr.marked r hmem, h.outdated_iff hl, hid, howned]
  constructor
  · rintro (⟨c, hc, -, hmarked⟩ | ⟨c, hc, hne, hown, hnamed⟩)
    · obtain ⟨m, -, rfl⟩ := (h.accepted c).1 ((ht c).1 hc)
      cases hmarked
    · obtain ⟨m, hm, rfl⟩ := (h.accepted c).1 ((ht c).1 hc)
      exact ⟨m, hm, hne, hown, hnamed⟩
  · rintro ⟨m, hm, hne, hown, hnamed⟩
    exact .inr ⟨m.card.marked false, (ht _).2 ((h.accepted _).2 ⟨m, hm, rfl⟩), hne, hown, hnamed⟩

/-- Once all accepted cards are taken, the rows are the listings. -/
theorem mirrors (h : p.Faithful S) (hr : Recorded rows taken)
    (ht : ∀ c, c ∈ taken ↔ c ∈ p.accepted) : rows.Mirrors p.listings := by
  have hof : ∀ l ∈ p.listings.rows, ∀ r ∈ rows.rows, r.Holds (l.card.marked false) →
      r = CardRow.ofCard l.card := by
    intro l hl r hmem hholds
    have hdescribes := hholds.describes
    have hmark := h.outdated_eq hr ht hl hmem hdescribes.id hdescribes.identity
    rw [CardRow.Holds, hmark] at hholds
    exact hholds
  intro r
  constructor
  · intro hmem
    obtain ⟨c, hc, hholds⟩ := hr.card r hmem
    obtain ⟨l, hl, rfl⟩ := (h.accepted c).1 ((ht c).1 hc)
    exact ⟨l, hl, hof l hl r hmem hholds⟩
  · rintro ⟨l, hl, rfl⟩
    have hc : l.card.marked false ∈ taken := (ht _).2 ((h.accepted _).2 ⟨l, hl, rfl⟩)
    obtain ⟨r, hmem, hdescribes⟩ := hr.row _ hc
    obtain ⟨d, hd, hholds⟩ := hr.card r hmem
    obtain rfl : d = l.card.marked false :=
      h.distinct_accepted d ((ht d).1 hd) _ ((ht _).1 hc) (hholds.describes.id.symm.trans hdescribes.id)
    rwa [← hof l hl r hmem hholds]

end Publication.Faithful

/-! ## Reading what was stored -/

namespace CardRows.Mirrors

variable {p : Publication} {rows : CardRows}

theorem find?_listed (hm : rows.Mirrors p.listings) {l : Listing} (hl : l ∈ p.listings.rows) :
    rows.find? l.id = some (CardRow.ofCard l.card) :=
  Table.find?_eq_some_iff.2 ⟨(hm _).2 ⟨l, hl, rfl⟩, rfl⟩

theorem reads (hm : rows.Mirrors p.listings) (h : p.Faithful S) {l : Listing}
    (hl : l ∈ p.listings.rows) : rows.Reads S l.card :=
  ⟨_, hm.find?_listed hl, CardRow.toCard_ofCard (h.genuine l hl), rfl⟩

/-- The way back from a listed card is the same in the cache. -/
theorem walks (hm : rows.Mirrors p.listings) (h : p.Faithful S) {l : Listing}
    (hl : l ∈ p.listings.rows) :
    rows.Walks S [l.card.id] l.card (p.listings.resolve l.card).ancestors := by
  obtain ⟨cs, hcs, hd⟩ := h.resolve_descends hl
  have hread : ∀ c ∈ cs, rows.Reads S c := by
    intro c hmem
    obtain ⟨m, hlisted, rfl, -⟩ := hd.mem hmem
    exact hm.reads h hlisted
  rw [hcs]
  exact hd.walks hread rfl rfl rfl fun c hmem hid => hd.id_ne hl hmem (List.mem_singleton.1 hid)

/-- A listed card is read with the chain that the directory serves it with. -/
theorem resolve_run {k : CardCache} (hk : k.Reliable) (hm : k.rows.Mirrors p.listings)
    (h : p.Faithful S) {l : Listing} (hl : l ∈ p.listings.rows) :
    CardCache.resolve S (CardRow.ofCard l.card) k = (.ok (p.listings.resolve l.card), k) :=
  CardCache.resolve_of_walks hk (CardRow.toCard_ofCard (h.genuine l hl)) (hm.walks h hl)

theorem get_run {k : CardCache} (hk : k.Reliable) (hm : k.rows.Mirrors p.listings)
    (h : p.Faithful S) {l : Listing} (hl : l ∈ p.listings.rows) :
    CardCache.get S l.id k = (.ok (some (p.listings.resolve l.card)), k) :=
  CardCache.get_of_walks hk (hm.reads h hl) (hm.walks h hl)

/-- The current ids are those of the listings that are current. -/
theorem mem_currentIds (hm : rows.Mirrors p.listings) (h : p.Faithful S) {id : String} :
    id ∈ rows.currentIds ↔ ∃ l ∈ p.listings.rows, l.isCurrent = true ∧ l.id = id := by
  rw [CardRows.mem_currentIds]
  constructor
  · rintro ⟨r, hr, hid, ho⟩
    obtain ⟨l, hl, rfl⟩ := (hm r).1 hr
    exact ⟨l, hl, (h.isCurrent_iff hl).2 ho, hid⟩
  · rintro ⟨l, hl, hc, hid⟩
    exact ⟨_, (hm _).2 ⟨l, hl, rfl⟩, hid, (h.isCurrent_iff hl).1 hc⟩

end CardRows.Mirrors

/-! ## Choosing among current cards -/

/-- The current listings of an identity. -/
def Listings.standing (t : Listings) (identity : String) : List Listing :=
  t.rows.filter fun l => l.isCurrent && l.card.identity = identity

theorem Listings.mem_standing {t : Listings} {l : Listing} :
    l ∈ t.standing identity ↔ l ∈ t.rows ∧ l.isCurrent = true ∧ l.card.identity = identity := by
  rw [standing, List.mem_filter, Bool.and_eq_true, decide_eq_true_eq]

theorem Listings.current_perm (t : Listings) (identity : String) :
    (t.current identity).Perm ((t.standing identity).map fun l => t.resolve l.card) :=
  List.mergeSort_perm _ _

namespace CardRows.Mirrors

variable {p : Publication} {rows : CardRows}

/-- The current rows of an identity are those of its current listings. -/
theorem standing_perm (hm : rows.Mirrors p.listings) (h : p.Faithful S) (identity : String) :
    (rows.standing identity).Perm
      ((p.listings.standing identity).map fun l => CardRow.ofCard l.card) := by
  have hids : (p.listings.standing identity).Pairwise fun l m => l.id ≠ m.id :=
    List.pairwise_map.1 (p.listings.distinct.sublist (List.filter_sublist.map _))
  have hlistings : ((p.listings.standing identity).map fun l => CardRow.ofCard l.card).Nodup :=
    List.pairwise_map.2 (hids.imp fun hne heq => hne (congrArg CardRow.id heq))
  rw [List.perm_ext_iff_of_nodup (rows.nodup_standing identity) hlistings]
  intro r
  rw [CardRows.mem_standing, List.mem_map, hm r]
  constructor
  · rintro ⟨⟨l, hl, rfl⟩, howned, ho⟩
    exact ⟨l, Listings.mem_standing.2 ⟨hl, (h.isCurrent_iff hl).2 ho, howned⟩, rfl⟩
  · rintro ⟨l, hl, rfl⟩
    obtain ⟨hl, hc, howned⟩ := Listings.mem_standing.1 hl
    exact ⟨⟨l, hl, rfl⟩, howned, (h.isCurrent_iff hl).1 hc⟩

end CardRows.Mirrors

namespace CardCache

variable {k : CardCache} {p : Publication}

/-- What a search for one identity answers, where its current card is chosen so: an identity that has
none is left out. -/
def answerOf : Except Error CardChain → Except Error (List CardChain)
  | .ok chain => .ok [chain]
  | .error (.cardNotFound _) => .ok []
  | .error e => .error e

/-- A search in a cache that mirrors a directory answers with the listing whose row is chosen. -/
theorem search_run (hk : k.Reliable) (hm : k.rows.Mirrors p.listings) (h : p.Faithful S)
    {found : Except Error Listing}
    (hfound : k.policy.choose (·.createdAt) identity (k.rows.standing identity) =
      found.map fun l => CardRow.ofCard l.card)
    (hlisted : ∀ l, found = .ok l → l ∈ p.listings.rows) :
    search S [identity] k = (answerOf (found.map fun l => p.listings.resolve l.card), k) := by
  rw [search_singleton]
  rcases current_cases S hk identity with
    ⟨hnone, hrun⟩ | ⟨hpolicy, htwo, hrun⟩ | ⟨r, -, hchoose, hrun⟩
  · rw [hnone] at hfound
    rw [hrun]
    cases found with
    | ok l => cases hfound
    | error e =>
      cases hfound
      rfl
  · rw [hpolicy, DuplicatePolicy.choose_reject htwo] at hfound
    rw [hrun]
    cases found with
    | ok l => cases hfound
    | error e =>
      cases hfound
      rfl
  · rw [hchoose] at hfound
    cases found with
    | ok l =>
      cases hfound
      rw [hrun, hm.resolve_run hk h (hlisted l rfl)]
      rfl
    | error e => cases hfound

end CardCache

/-! ## What both answer -/

/-- No two current cards of the identity were made at one time. -/
def Listings.Untied (t : Listings) (identity : String) : Prop :=
  ∀ a ∈ t.current identity, ∀ b ∈ t.current identity, a.head.createdAt = b.head.createdAt → a = b

namespace CardRows.Mirrors

variable {p : Publication} {rows : CardRows}

/-- A policy finds the same fault with the current rows of an identity as with its current cards, and
where no two of these were made at one time, it chooses the same one. -/
theorem exists_choice (hm : rows.Mirrors p.listings) (h : p.Faithful S) (policy : DuplicatePolicy)
    (identity : String) : ∃ found : Except Error Listing,
      policy.choose (·.createdAt) identity (rows.standing identity) =
          found.map (fun l => CardRow.ofCard l.card) ∧
        (∀ l, found = .ok l → l ∈ p.listings.rows) ∧
        (∀ e, found = .error e ↔ policy.select identity (p.listings.current identity) = .error e) ∧
        (p.listings.Untied identity → policy.select identity (p.listings.current identity) =
          found.map fun l => p.listings.resolve l.card) := by
  have hrows := hm.standing_perm h identity
  have hchains := p.listings.current_perm identity
  have hlength : (rows.standing identity).length = (p.listings.current identity).length := by
    rw [hrows.length_eq, hchains.length_eq, List.length_map, List.length_map]
  have herror : ∀ e, policy.choose (·.createdAt) identity (rows.standing identity) = .error e ↔
      policy.select identity (p.listings.current identity) = .error e :=
    fun e => DuplicatePolicy.choose_error_congr hlength
  by_cases hties : p.listings.Untied identity
  · have hchain : policy.select identity (p.listings.current identity) =
        (policy.choose (·.card.createdAt) identity (p.listings.standing identity)).map
          fun l => p.listings.resolve l.card := by
      rw [DuplicatePolicy.select, DuplicatePolicy.choose_perm hchains hties,
        DuplicatePolicy.choose_map]
      rfl
    have hrow : policy.choose (·.createdAt) identity (rows.standing identity) =
        (policy.choose (·.card.createdAt) identity (p.listings.standing identity)).map
          fun l => CardRow.ofCard l.card := by
      rw [DuplicatePolicy.choose_perm hrows ?_, DuplicatePolicy.choose_map]
      · rfl
      · intro r hr q hq htime
        obtain ⟨l, hl, rfl⟩ := List.mem_map.1 (hrows.mem_iff.1 hr)
        obtain ⟨m, hm, rfl⟩ := List.mem_map.1 (hrows.mem_iff.1 hq)
        have heq := hties _ (hchains.mem_iff.2 (List.mem_map.2 ⟨l, hl, rfl⟩)) _
          (hchains.mem_iff.2 (List.mem_map.2 ⟨m, hm, rfl⟩)) htime
        exact congrArg (fun c : CardChain => CardRow.ofCard c.head) heq
    refine ⟨_, hrow, fun l hl => ?_, fun e => ?_, fun _ => hchain⟩
    · exact (Listings.mem_standing.1 (DuplicatePolicy.mem_of_choose hl)).1
    · rw [hchain]
      cases policy.choose (·.card.createdAt) identity (p.listings.standing identity) with
      | error e' => exact ⟨fun he => by rw [he]; rfl, fun he => by cases he; rfl⟩
      | ok l => exact ⟨nofun, nofun⟩
  · cases hchoice : policy.choose (·.createdAt) identity (rows.standing identity) with
    | error e =>
      refine ⟨.error e, rfl, nofun, fun e' => ?_, fun hu => absurd hu hties⟩
      rw [← herror, hchoice]
      exact ⟨fun he => by cases he; rfl, fun he => by cases he; rfl⟩
    | ok r =>
      obtain ⟨l, hl, rfl⟩ := List.mem_map.1 (hrows.mem_iff.1 (DuplicatePolicy.mem_of_choose hchoice))
      refine ⟨.ok l, rfl, fun m hm => ?_, fun e => ?_, fun hu => absurd hu hties⟩
      · cases hm
        exact (Listings.mem_standing.1 hl).1
      · rw [← herror, hchoice]
        exact ⟨nofun, nofun⟩

end CardRows.Mirrors

/-- What a cache and a directory that agree have in common. -/
structure CardCache.AgreesWith (S : CipherSuite) (k : CardCache) (d : Directory) : Prop where
  /-- The current ids are those of the cards that the directory takes for current. -/
  ids : ∃ ids, CardCache.currentIds k = (.ok ids, k) ∧ ids.Pairwise (· < ·) ∧
    ∀ id, id ∈ ids ↔ ∃ l ∈ d.listings.rows, l.isCurrent = true ∧ l.id = id
  /-- A current card is read from the cache as the directory serves it. -/
  cards : ∀ l ∈ d.listings.rows, l.isCurrent = true → ∃ chain found,
    CardCache.get S l.id k = (.ok (some chain), k) ∧
      (Directory.search l.card.identity d).1 = .ok found ∧ chain ∈ found ∧ chain.head = l.card
  /-- The cache finds the card of an identity that is chosen among those that the directory serves. It
  fails where the choice does, but for an identity without a card, which is left out. Only which of
  several cards made at one time is preferred may be different. -/
  choices : ∀ identity, ∃ found, (Directory.search identity d).1 = .ok found ∧
    (CardCache.search S [identity] k = (.ok [], k) ↔
      k.policy.select identity found = .error (.cardNotFound identity)) ∧
    (∀ n, CardCache.search S [identity] k = (.error (.ambiguousCards identity n), k) ↔
      k.policy.select identity found = .error (.ambiguousCards identity n)) ∧
    ((∀ a ∈ found, ∀ b ∈ found, a.head.createdAt = b.head.createdAt → a = b) →
      CardCache.search S [identity] k = (CardCache.answerOf (k.policy.select identity found), k))

namespace Publication

variable {p : Publication} {k : CardCache}

theorem Faithful.search_run (h : p.Faithful S) (identity : String) :
    (Directory.search identity p.directory).1 = .ok (p.listings.current identity) := by
  rw [Directory.search, Action.bind_ok (Directory.reach_of_available h.available)]
  rfl

theorem Faithful.agreesWith (h : p.Faithful S) (hk : k.Reliable)
    (hm : k.rows.Mirrors p.listings) : k.AgreesWith S p.directory where
  ids := ⟨k.rows.currentIds, CardCache.currentIds_run hk, k.rows.pairwise_currentIds,
    fun _ => hm.mem_currentIds h⟩
  cards := by
    intro l hl hc
    refine ⟨_, _, hm.get_run hk h hl, h.search_run l.card.identity, ?_, rfl⟩
    rw [(p.listings.current_perm _).mem_iff]
    exact List.mem_map.2 ⟨l, Listings.mem_standing.2 ⟨hl, hc, rfl⟩, rfl⟩
  choices := by
    intro identity
    obtain ⟨found, hrow, hlisted, herror, hsame⟩ := hm.exists_choice h k.policy identity
    have hsearch := CardCache.search_run hk hm h hrow hlisted
    have hties : p.listings.Untied identity → CardCache.search S [identity] k =
        (CardCache.answerOf (k.policy.select identity (p.listings.current identity)), k) := by
      intro hties
      rw [hsearch, hsame hties]
    cases found with
    | ok l =>
      refine ⟨_, h.search_run identity, ?_, fun n => ?_, hties⟩
      · rw [hsearch, ← herror]
        exact ⟨nofun, nofun⟩
      · rw [hsearch, ← herror]
        exact ⟨nofun, nofun⟩
    | error e =>
      have hselect := (herror e).1 rfl
      refine ⟨_, h.search_run identity, ?_, fun n => ?_, hties⟩
      all_goals rw [hsearch, hselect]
      all_goals rcases DuplicatePolicy.choose_eq_error_iff.1 hrow with ⟨-, rfl⟩ | ⟨-, -, rfl⟩
      · exact ⟨fun _ => rfl, fun _ => rfl⟩
      · exact ⟨nofun, nofun⟩
      · exact ⟨nofun, nofun⟩
      · exact ⟨fun he => by cases he; rfl, fun he => by cases he; rfl⟩

/-- A cache to which all accepted cards are stored, in any order and any number of times, agrees with
the directory that accepted them. -/
theorem agrees_once_stored (S : CipherSuite) (raws : List RawCard) (policy : DuplicatePolicy)
    (order : List Card) (horder : ∀ c, c ∈ order ↔ c ∈ (ofRaws S raws).accepted) :
    ∃ k, Action.each CardCache.store order (.empty policy) = (.ok (), k) ∧ k.policy = policy ∧
      k.AgreesWith S (ofRaws S raws).directory := by
  have h := faithful_ofRaws S raws
  have hk : (CardCache.empty policy).Reliable := CardCache.reliable_empty policy
  obtain ⟨rows, hrun, hr⟩ := h.each_store_run hk Recorded.empty fun c hc => (horder c).1 hc
  exact ⟨_, hrun, rfl, h.agreesWith (hk.withRows rows) (h.mirrors hr horder)⟩

/-- A card is published, replaced and published again in vain; its successor is stored first. -/
theorem agrees_once_stored_backwards : ∃ first second : Card, ∃ raws : List RawCard,
    raws = [first.raw, second.raw, first.raw] ∧ second.previousId = some first.id ∧
      (ofRaws .transparent raws).accepted = [first, second] ∧
      ∃ k, Action.each CardCache.store [second, first, second] (.empty .reject) = (.ok (), k) ∧
        k.policy = .reject ∧ k.AgreesWith .transparent (ofRaws .transparent raws).directory := by
  have haccepted := accepted_of_replacement (CacheRun.genuine_cardOfAlice 1 none)
    (CacheRun.genuine_cardOfAlice 2 (some (CacheRun.cardOfAlice 1 none).id)) rfl rfl
    CacheRun.id_cardOfAlice_ne rfl rfl rfl (by decide)
  refine ⟨_, _, _, rfl, rfl, haccepted, agrees_once_stored _ _ _ _ fun c => ?_⟩
  rw [haccepted]
  constructor
  · intro hc
    rcases List.mem_cons.1 hc with rfl | hc
    · exact List.mem_cons_of_mem _ List.mem_cons_self
    · exact hc
  · exact List.mem_cons_of_mem _

end Publication

end EndToEnd
