/-
  Searching a cache for the current cards of identities.

  In a cache that only stores and resets have changed every row can be read, so a search ends for one
  reason only: an identity has several current cards, and the policy takes none of them. What is found
  for an identity is what the cache takes for its current card (`Takes`), and that does not depend on
  what else is asked.

  Proved:
  * `CardRows.Filed.readable`: the rows of such a cache are those of cards, which are read from them.
  * `CardCache.current_of_readable`: what is found for one identity.
  * `CardCache.searchFrom_ends`: how a search ends, by the identities that it has not yet seen.
  * `CardCache.finds_current_cards`: what a search answers, and how it agrees with the cards that are
    got by their ids and with the ids of the current cards.
-/
import EndToEnd.Proofs.Card.Parse
import EndToEnd.Proofs.Card.Resolve

namespace EndToEnd

variable {S : CipherSuite}

/-! ## Names, each once -/

section Names

variable {seen identities : List String} {identity : String}

/-- The identities that were not seen, in the order in which they occur first. -/
def unseen (seen identities : List String) : List String :=
  (identities.filter fun i => i ∉ seen).eraseDups

theorem unseen_nil (identities : List String) : unseen [] identities = identities.eraseDups :=
  congrArg List.eraseDups (List.filter_eq_self.2 fun _ _ => rfl)

theorem unseen_cons_of_mem (h : identity ∈ seen) :
    unseen seen (identity :: identities) = unseen seen identities := by
  rw [unseen, List.filter_cons_of_neg (by simpa using h), unseen]

theorem unseen_cons_of_not_mem (h : identity ∉ seen) :
    unseen seen (identity :: identities) = identity :: unseen (identity :: seen) identities := by
  rw [unseen, List.filter_cons_of_pos (by simpa using h), List.eraseDups_cons, List.filter_filter,
    unseen]
  refine congrArg (fun names => identity :: List.eraseDups names) (List.filter_congr fun i _ => ?_)
  rw [Bool.eq_iff_iff]
  simp

end Names

/-! ## Rows that can be read -/

namespace CardRows

variable {t : CardRows} {cards : List Card} {identity : String}

/-- Every row is the row of a card, and that card is read from it. -/
def Readable (S : CipherSuite) (t : CardRows) : Prop :=
  ∀ r ∈ t.rows, ∃ c, r = CardRow.ofCard c ∧ r.toCard S = .ok c

theorem Filed.readable (h : t.Filed cards) (hg : ∀ c ∈ cards, c.Genuine S) : t.Readable S := by
  intro r hr
  obtain ⟨c, hc, hholds⟩ := h.card r hr
  have hrow : r = CardRow.ofCard (c.marked r.outdated) := hholds
  refine ⟨c.marked r.outdated, hrow, ?_⟩
  rw [hrow]
  exact CardRow.toCard_ofCard ((hg c hc).marked r.outdated)

/-- The identity has a current card. -/
def hasCurrent (t : CardRows) (identity : String) : Bool := 0 < t.countCurrent identity

/-- The identity has more than one current card. -/
def hasSeveral (t : CardRows) (identity : String) : Bool := 1 < t.countCurrent identity

end CardRows

namespace CardCache

variable {k : CardCache} {identity : String}

/-- Where all rows can be read, so can what lies behind a card. -/
theorem ancestors_of_readable (hk : k.Reliable) (h : k.rows.Readable S) (identity : String)
    (visited : List String) (newer : Timestamp) (id? : Option String) :
    ∃ cs, ancestors S identity visited newer id? k = (.ok cs, k) := by
  cases id? with
  | none => exact ⟨[], by rw [ancestors]; rfl⟩
  | some id =>
    rw [ancestors]
    by_cases hv : id ∈ visited
    · rw [if_pos hv]
      exact ⟨[], rfl⟩
    · rw [if_neg hv, Action.bind_ok (query_run hk _)]
      cases hf : k.rows.find? id with
      | none => exact ⟨[], rfl⟩
      | some row =>
        obtain ⟨c, -, hrow⟩ := h row (Table.mem_of_find? hf)
        dsimp only
        rw [hrow, Action.bind_ok (Action.lift_run _ _)]
        by_cases hc : c.identity = identity ∧ c.createdAt < newer
        · obtain ⟨cs, hcs⟩ :=
            ancestors_of_readable hk h identity (id :: visited) c.createdAt c.previousId
          rw [dif_pos hc, Action.bind_ok hcs]
          exact ⟨c :: cs, rfl⟩
        · rw [dif_neg hc]
          exact ⟨[], rfl⟩
termination_by newer.rank
decreasing_by exact Timestamp.rank_lt hc.2

/-- A row is read with what lies behind it. -/
theorem resolve_of_readable (hk : k.Reliable) (h : k.rows.Readable S) {r : CardRow}
    (hr : r ∈ k.rows.rows) :
    ∃ chain, resolve S r k = (.ok chain, k) ∧ r = CardRow.ofCard chain.head ∧
      r.toCard S = .ok chain.head := by
  obtain ⟨c, hrc, hrow⟩ := h r hr
  obtain ⟨cs, hcs⟩ := ancestors_of_readable hk h c.identity [c.id] c.createdAt c.previousId
  refine ⟨⟨c, cs⟩, ?_, hrc, hrow⟩
  rw [resolve, hrow, Action.bind_ok (Action.lift_run _ _), Action.bind_ok hcs]
  rfl

/-- The card of a row is got by the row's id. -/
theorem get_of_resolve (hk : k.Reliable) {r : CardRow} (hr : r ∈ k.rows.rows) {chain : CardChain}
    (h : resolve S r k = (.ok chain, k)) : get S r.id k = (.ok (some chain), k) := by
  rw [get, Action.bind_ok (query_run hk _), Table.find?_key hr]
  dsimp only
  rw [Action.map_run, h]
  rfl

/-! ## The current card of one identity -/

/-- An identity has no current card; or several, none of which is chosen; or its current card is read
from the row that is chosen. -/
theorem current_cases (S : CipherSuite) (hk : k.Reliable) (identity : String) :
    (k.rows.standing identity = [] ∧ current S identity k = (.ok none, k)) ∨
      (k.policy = .reject ∧ 2 ≤ (k.rows.standing identity).length ∧ current S identity k =
        (.error (.ambiguousCards identity (k.rows.standing identity).length), k)) ∨
      ∃ r ∈ k.rows.standing identity,
        k.policy.choose (·.createdAt) identity (k.rows.standing identity) = .ok r ∧
        current S identity k = ((resolve S r k).1.map some, (resolve S r k).2) := by
  unfold CardRows.standing
  rw [current, Action.bind_ok (query_run hk _)]
  generalize (k.rows.ofIdentity identity).filter (fun r => !r.outdated) = rows
  cases rows with
  | nil => exact .inl ⟨rfl, rfl⟩
  | cons q qs =>
    right
    dsimp only
    rw [Action.bind_ok (Action.getThe_run _)]
    rcases k.policy.choose_cases (·.createdAt) identity (q :: qs) with
      ⟨hnil, -⟩ | ⟨hpolicy, htwo, hchoose⟩ | ⟨r, hr, -, hchoose⟩
    · cases hnil
    · rw [hchoose, Action.bind_error (Action.lift_run _ _)]
      exact .inl ⟨hpolicy, htwo, rfl⟩
    · rw [hchoose, Action.bind_ok (Action.lift_run _ _), Action.map_run]
      exact .inr ⟨r, hr, rfl, rfl⟩

/-- The current card of an identity, where one of its rows is chosen. -/
theorem current_of_choice (hk : k.Reliable) {r : CardRow}
    (h : k.policy.choose (·.createdAt) identity (k.rows.standing identity) = .ok r) :
    current S identity k = ((resolve S r k).1.map some, (resolve S r k).2) := by
  rcases current_cases S hk identity with ⟨hnone, -⟩ | ⟨hpolicy, htwo, -⟩ | ⟨q, -, hchoose, hrun⟩
  · rw [hnone] at h
    cases h
  · rw [hpolicy, DuplicatePolicy.choose_reject htwo] at h
    cases h
  · obtain rfl : q = r := Except.ok.inj (hchoose.symm.trans h)
    exact hrun

theorem search_singleton (S : CipherSuite) (identity : String) (k : CardCache) :
    search S [identity] k =
      ((current S identity k).1.map Option.toList, (current S identity k).2) := by
  rw [search, searchFrom, if_neg List.not_mem_nil, Action.bind_run]
  cases current S identity k with
  | mk r k =>
    cases r with
    | error e => rfl
    | ok found =>
      dsimp only
      rw [searchFrom, Action.bind_ok (Action.pure_run _ _), List.append_nil]
      rfl

/-- The chain is what the cache takes for the current card of its identity: the row of its head is
chosen among the current ones, and the chain is read from it. -/
structure Takes (S : CipherSuite) (k : CardCache) (chain : CardChain) : Prop where
  chosen : k.policy.choose (·.createdAt) chain.head.identity
    (k.rows.standing chain.head.identity) = .ok (CardRow.ofCard chain.head)
  resolved : resolve S (CardRow.ofCard chain.head) k = (.ok chain, k)

/-- What is found for an identity, where all rows can be read. -/
theorem current_of_readable (hk : k.Reliable) (h : k.rows.Readable S) (identity : String) :
    (k.rows.countCurrent identity = 0 ∧ current S identity k = (.ok none, k)) ∨
      (k.policy = .reject ∧ 1 < k.rows.countCurrent identity ∧ current S identity k =
        (.error (.ambiguousCards identity (k.rows.countCurrent identity)), k)) ∨
      ∃ chain, chain.head.identity = identity ∧ k.Takes S chain ∧
        current S identity k = (.ok (some chain), k) := by
  rw [← CardRows.length_standing]
  rcases current_cases S hk identity with ⟨hnone, hrun⟩ | hseveral | ⟨r, hr, hchoose, hrun⟩
  · exact .inl ⟨congrArg List.length hnone, hrun⟩
  · exact .inr (.inl hseveral)
  · obtain ⟨hmem, howned, -⟩ := CardRows.mem_standing.1 hr
    obtain ⟨chain, hresolve, hrow, -⟩ := resolve_of_readable hk h hmem
    have hidentity : chain.head.identity = identity := by rw [← howned, hrow]; rfl
    refine .inr (.inr ⟨chain, hidentity, ⟨?_, ?_⟩, ?_⟩)
    · rw [hidentity, ← hrow]
      exact hchoose
    · rw [← hrow]
      exact hresolve
    · rw [hrun, hresolve]
      rfl

namespace Takes

variable {chain : CardChain}

theorem mem_standing (h : k.Takes S chain) :
    CardRow.ofCard chain.head ∈ k.rows.standing chain.head.identity :=
  DuplicatePolicy.mem_of_choose h.chosen

theorem got (h : k.Takes S chain) (hk : k.Reliable) :
    get S chain.head.id k = (.ok (some chain), k) :=
  get_of_resolve hk (CardRows.mem_standing.1 h.mem_standing).1 h.resolved

theorem count_pos (h : k.Takes S chain) : 0 < k.rows.countCurrent chain.head.identity := by
  rw [← CardRows.length_standing]
  exact List.length_pos_of_mem h.mem_standing

/-- Where no policy has to choose, there is nothing to choose from. -/
theorem count_le (h : k.Takes S chain) (hpolicy : k.policy = .reject) :
    k.rows.countCurrent chain.head.identity ≤ 1 := by
  have hchosen := h.chosen
  refine Nat.le_of_not_lt fun htwo => ?_
  rw [← CardRows.length_standing] at htwo
  rw [hpolicy, DuplicatePolicy.choose_reject htwo] at hchosen
  cases hchosen

theorem newest (h : k.Takes S chain) (hpolicy : k.policy = .preferNewest) :
    ∀ r ∈ k.rows.standing chain.head.identity, r.createdAt ≤ chain.head.createdAt := by
  have hchosen := h.chosen
  rw [hpolicy, DuplicatePolicy.choose_preferNewest] at hchosen
  cases hlatest : Timestamp.latest? (·.createdAt) (k.rows.standing chain.head.identity) with
  | none =>
    rw [hlatest] at hchosen
    cases hchosen
  | some r =>
    rw [hlatest] at hchosen
    have hrow : r = CardRow.ofCard chain.head := Except.ok.inj hchosen
    intro q hq
    have hle := (Timestamp.latest?_spec hlatest).2 q hq
    rw [hrow] at hle
    exact hle

/-- Where the identity has no other current card, no other id among the current ones leads to a card of
the identity. -/
theorem alone (h : k.Takes S chain) (hk : k.Reliable) (hread : k.rows.Readable S)
    (hone : k.rows.countCurrent chain.head.identity = 1) {id : String}
    (hid : id ∈ k.rows.currentIds) : ∃ other, get S id k = (.ok (some other), k) ∧
      (other.head.identity = chain.head.identity ↔ id = chain.head.id) := by
  obtain ⟨r, hr, rfl, hcurrent⟩ := CardRows.mem_currentIds.1 hid
  obtain ⟨other, hresolve, hrow, -⟩ := resolve_of_readable hk hread hr
  refine ⟨other, get_of_resolve hk hr hresolve, fun howned => ?_, fun hsame => ?_⟩
  · have hstanding : r ∈ k.rows.standing chain.head.identity :=
      CardRows.mem_standing.2 ⟨hr, by rw [hrow]; exact howned, hcurrent⟩
    rw [← CardRows.length_standing] at hone
    obtain ⟨q, hq⟩ := List.length_eq_one_iff.1 hone
    have hmem := h.mem_standing
    rw [hq, List.mem_singleton] at hstanding hmem
    rw [hstanding, ← hmem]
    rfl
  · have hmem := (CardRows.mem_standing.1 h.mem_standing).1
    have hrows := Table.eq_of_key_eq hr hmem hsame
    rw [hrow] at hrows
    exact congrArg CardRow.identity hrows

end Takes

/-! ## Searches -/

/-- How a search ends: at the first identity with several current cards, if the policy takes none of
them; or with what the cache takes for the current card of each identity that has one. -/
inductive SearchEnds (S : CipherSuite) (k : CardCache) (asked : List String) :
    Except Error (List CardChain) → Prop
  | ambiguous (identity : String) (hpolicy : k.policy = .reject)
      (hfirst : asked.find? k.rows.hasSeveral = some identity) :
      SearchEnds S k asked
        (.error (.ambiguousCards identity (k.rows.countCurrent identity)))
  | found (chains : List CardChain)
      (hnone : k.policy = .reject → asked.find? k.rows.hasSeveral = none)
      (hidentities : chains.map (·.head.identity) = asked.filter k.rows.hasCurrent)
      (htakes : ∀ chain ∈ chains, k.Takes S chain) : SearchEnds S k asked (.ok chains)

/-- A search behind an identity with no more than one current card, or with a policy that takes one. -/
theorem SearchEnds.behind {asked : List String} {result : Except Error (List CardChain)}
    (h : SearchEnds S k asked result) {found : Option CardChain}
    (hfound : ∀ chain, found = some chain → chain.head.identity = identity ∧ k.Takes S chain)
    (hcurrent : k.rows.hasCurrent identity = found.isSome)
    (hone : k.policy = .reject → k.rows.hasSeveral identity = false) :
    SearchEnds S k (identity :: asked) (result.map (found.toList ++ ·)) := by
  cases h with
  | ambiguous other hpolicy hfirst =>
    refine .ambiguous other hpolicy ?_
    rw [List.find?_cons, hone hpolicy]
    exact hfirst
  | found chains hnone hidentities htakes =>
    refine .found _ (fun hpolicy => ?_) ?_ fun chain hchain => ?_
    · rw [List.find?_cons, hone hpolicy]
      exact hnone hpolicy
    · rw [List.map_append, hidentities, List.filter_cons, hcurrent]
      cases found with
      | none => rfl
      | some chain => exact congrArg (· :: _) (hfound chain rfl).1
    · rcases List.mem_append.1 hchain with hchain | hchain
      · exact (hfound chain (Option.mem_toList.1 hchain)).2
      · exact htakes chain hchain

/-- How a search ends, by the identities that it has not yet seen. It changes nothing. -/
theorem searchFrom_ends (hk : k.Reliable) (h : k.rows.Readable S) (seen identities : List String) :
    ∃ result, searchFrom S seen identities k = (result, k) ∧
      SearchEnds S k (unseen seen identities) result := by
  induction identities generalizing seen with
  | nil => exact ⟨.ok [], rfl, .found [] (fun _ => rfl) rfl (List.forall_mem_nil _)⟩
  | cons identity identities ih =>
    rw [searchFrom]
    by_cases hseen : identity ∈ seen
    · rw [if_pos hseen, unseen_cons_of_mem hseen]
      exact ih seen
    rw [if_neg hseen, unseen_cons_of_not_mem hseen]
    obtain ⟨result, hothers, hends⟩ := ih (identity :: seen)
    have hbehind : ∀ found, current S identity k = (.ok found, k) →
        (current S identity >>= fun found => searchFrom S (identity :: seen) identities >>=
          fun others => pure (found.toList ++ others)) k = (result.map (found.toList ++ ·), k) := by
      intro found hrun
      rw [Action.bind_ok hrun, Action.bind_run, hothers]
      cases result <;> rfl
    rcases current_of_readable hk h identity with
      ⟨hnone, hrun⟩ | ⟨hpolicy, htwo, hrun⟩ | ⟨chain, hidentity, htakes, hrun⟩
    · refine ⟨_, hbehind none hrun, hends.behind ?_ ?_ fun _ => ?_⟩
      · intro chain hchain
        cases hchain
      · rw [CardRows.hasCurrent, hnone]
        rfl
      · rw [CardRows.hasSeveral, hnone]
        rfl
    · refine ⟨_, Action.bind_error hrun, .ambiguous identity hpolicy ?_⟩
      rw [List.find?_cons, CardRows.hasSeveral, decide_eq_true htwo]
    · subst hidentity
      refine ⟨_, hbehind (some chain) hrun, hends.behind ?_ (decide_eq_true htakes.count_pos)
        fun hpolicy => decide_eq_false (Nat.not_lt.2 (htakes.count_le hpolicy))⟩
      intro other hother
      rw [← Option.some.inj hother]
      exact ⟨rfl, htakes⟩

/-- What a search answers in a cache that started without rows and was changed only by stores of genuine
cards and by resets, some of which may have failed, for any identities, repeats among them, and either
policy. It fails only where the policy takes none of several current cards, and then names the first
identity that has several and says how many there are. Otherwise it gives, in the order in which the
identities occur first, one chain for each that has a current card. Its head is current and is got by its
id with the same chain; its id is one of the ids of current cards, and the only one that leads to the
identity if that has no other current card; and where the newest is preferred, no current card of the
identity is newer. -/
theorem finds_current_cards {k : CardCache} {steps : List CacheStep} (hrows : k.rows = .empty)
    (hg : ∀ c ∈ steps.flatMap CacheStep.cards, c.Genuine S) (hk : (k.after steps).Reliable)
    (identities : List String) :
    let cache := k.after steps
    (search S identities cache).2 = cache ∧
    (∀ e, (search S identities cache).1 = .error e ↔ cache.policy = .reject ∧ ∃ identity,
      identities.find? cache.rows.hasSeveral = some identity ∧
        e = .ambiguousCards identity (cache.rows.countCurrent identity)) ∧
    ∀ chains, (search S identities cache).1 = .ok chains →
      chains.map (·.head.identity) = identities.eraseDups.filter cache.rows.hasCurrent ∧
      ∀ chain ∈ chains, chain.head.outdated = false ∧
        get S chain.head.id cache = (.ok (some chain), cache) ∧
        (∃ ids, currentIds cache = (.ok ids, cache) ∧ ids.Pairwise (· < ·) ∧ chain.head.id ∈ ids ∧
          (cache.rows.countCurrent chain.head.identity = 1 →
            ∀ id ∈ ids, ∃ other, get S id cache = (.ok (some other), cache) ∧
              (other.head.identity = chain.head.identity ↔ id = chain.head.id))) ∧
        (cache.policy = .preferNewest → ∀ r ∈ cache.rows.rows,
          r.identity = chain.head.identity → r.outdated = false →
            r.createdAt ≤ chain.head.createdAt) := by
  intro cache
  have hempty : k.rows.Filed (steps.flatMap CacheStep.cards) := by
    rw [hrows]
    exact CardRows.filed_empty _
  have hread : cache.rows.Readable S := (after_filed hempty (List.Subset.refl _)).readable hg
  obtain ⟨result, hrun, hends⟩ := searchFrom_ends hk hread [] identities
  rw [unseen_nil] at hends
  have hsearch : search S identities cache = (result, cache) := hrun
  rw [hsearch]
  refine ⟨rfl, fun e => ?fails, fun chains hchains => ?found⟩
  case fails =>
    cases hends with
    | ambiguous identity hpolicy hfirst =>
      rw [Text.find?_eraseDups] at hfirst
      rw [hfirst]
      constructor
      · intro he
        exact ⟨hpolicy, identity, rfl, (Except.error.inj he).symm⟩
      · rintro ⟨-, other, hother, rfl⟩
        rw [Option.some.inj hother]
    | found chains hnone _ _ =>
      refine ⟨nofun, ?_⟩
      rintro ⟨hpolicy, other, hother, -⟩
      rw [← Text.find?_eraseDups, hnone hpolicy] at hother
      cases hother
  case found =>
    cases hends with
    | ambiguous => cases hchains
    | found _ _ hidentities htakes =>
      obtain rfl := Except.ok.inj hchains
      refine ⟨hidentities, fun chain hchain => ?_⟩
      have h := htakes chain hchain
      obtain ⟨hmem, -, hcurrent⟩ := CardRows.mem_standing.1 h.mem_standing
      refine ⟨hcurrent, h.got hk, ⟨_, currentIds_run hk, CardRows.pairwise_currentIds _,
        CardRows.mem_currentIds.2 ⟨_, hmem, rfl, hcurrent⟩, fun hone id hid => ?_⟩, ?_⟩
      · exact h.alone hk hread hone hid
      · exact fun hpolicy r hr howned hstands =>
          h.newest hpolicy r (CardRows.mem_standing.2 ⟨hr, howned, hstands⟩)

/-- What two cards without predecessors leave behind in a new cache. -/
theorem after_two_firsts {a b : Card} (ha : a.previousId = none) (hb : b.previousId = none)
    (hne : a.id ≠ b.id) : ∃ rows : CardRows, rows.rows = [CardRow.ofCard a, CardRow.ofCard b] ∧
      ∀ policy, (empty policy).after [.store a, .store b] = { empty policy with rows } := by
  have hnone : ∀ (t : CardRows) (c : Card), c.previousId = none → t.predecessor? c = none := by
    intro t c hc
    rw [CardRows.predecessor?, hc]
    rfl
  have hrefusal : ∀ (t : CardRows) (c : Card), c.previousId = none → t.refusal c = none := by
    intro t c hc
    rw [CardRows.refusal, hnone t c hc]
  have hadopt : ∀ (t : CardRows) (c : Card), c.previousId = none → t.adopt c =
      t.insert (CardRow.ofCard (c.marked (t.mark c))) := by
    intro t c hc
    rw [CardRows.adopt, CardRows.outdatePredecessor, hnone t c hc]
    rfl
  have hfirst : (CardRows.adopt .empty a).rows = [CardRow.ofCard a] := by
    have hmark : CardRows.mark .empty a = a.outdated := by
      rw [CardRows.mark, CardRows.names]
      simp
    rw [hadopt _ a ha, hmark]
    rfl
  refine ⟨(CardRows.adopt .empty a).adopt b, ?_, fun policy => ?_⟩
  · have hmark : CardRows.mark (CardRows.adopt .empty a) b = b.outdated := by
      rw [CardRows.mark, CardRows.names, Table.find?, hfirst]
      simp [hne, ha]
    rw [hadopt _ b hb, hmark]
    show (CardRows.adopt .empty a).rows.filter (fun r => r.id ≠ b.id) ++ [_] = _
    rw [hfirst]
    simp [hne]
  · have hempty := reliable_empty policy
    have hone := store_of_not_refused hempty (hrefusal _ a ha)
    have htwo := store_of_not_refused (hempty.withRows (CardRows.adopt .empty a)) (hrefusal _ b hb)
    show (store b (store a (empty policy)).2).2 = _
    rw [hone]
    exact congrArg Prod.snd htwo

/-- A user has two cards of which neither names the other: the search fails or takes the newest one, as
the policy has it. -/
theorem search_of_unrelated_cards :
    let first := CacheRun.cardOfAlice 1 none
    let other := CacheRun.cardOfAlice 2 none
    let steps : List CacheStep := [.store first, .store other]
    (search .transparent ["bob", "alice"] ((empty .reject).after steps)).1 =
      .error (.ambiguousCards "alice" 2) ∧
    ∃ chain, (search .transparent ["alice", "bob", "alice"]
        ((empty .preferNewest).after steps)).1 = .ok [chain] ∧
      chain.head.identity = "alice" ∧ other.createdAt ≤ chain.head.createdAt := by
  intro first other steps
  have hne : first.id ≠ other.id := by decide +kernel
  obtain ⟨rows, hrows, hafter⟩ := after_two_firsts (a := first) (b := other) rfl rfl hne
  have hcount : rows.countCurrent "alice" = 2 ∧ rows.countCurrent "bob" = 0 := by
    rw [CardRows.countCurrent, CardRows.countCurrent, hrows]
    exact ⟨rfl, rfl⟩
  have hgenuine : ∀ c ∈ steps.flatMap CacheStep.cards, c.Genuine .transparent := by
    intro c hc
    rcases List.mem_cons.1 hc with rfl | hc
    · exact CacheRun.genuine_cardOfAlice _ _
    · rw [List.mem_singleton.1 hc]
      exact CacheRun.genuine_cardOfAlice _ _
  have hreliable : ∀ policy, ((empty policy).after steps).Reliable := by
    intro policy
    rw [hafter]
    exact (reliable_empty policy).withRows rows
  constructor
  · obtain ⟨-, hfails, -⟩ :=
      finds_current_cards rfl hgenuine (hreliable .reject) ["bob", "alice"]
    rw [hfails, hafter]
    refine ⟨rfl, "alice", ?_, by rw [hcount.1]⟩
    simp [CardRows.hasSeveral, hcount]
  · obtain ⟨-, hfails, hfound⟩ :=
      finds_current_cards rfl hgenuine (hreliable .preferNewest) ["alice", "bob", "alice"]
    cases hsearch : (search .transparent ["alice", "bob", "alice"]
        ((empty .preferNewest).after steps)).1 with
    | error e =>
      have hpolicy := ((hfails e).1 hsearch).1
      rw [hafter] at hpolicy
      cases hpolicy
    | ok chains =>
      obtain ⟨hidentities, hchains⟩ := hfound chains hsearch
      rw [hafter] at hidentities hchains
      have hasked : ["alice", "bob", "alice"].eraseDups.filter rows.hasCurrent = ["alice"] := by
        simp [List.eraseDups_cons, CardRows.hasCurrent, hcount]
      rw [hasked] at hidentities
      obtain ⟨chain, rfl⟩ : ∃ chain, chains = [chain] :=
        List.length_eq_one_iff.1 (by simpa using congrArg List.length hidentities)
      obtain ⟨-, -, -, hnewest⟩ := hchains chain List.mem_cons_self
      have howned : chain.head.identity = "alice" := List.singleton_inj.1 hidentities
      refine ⟨chain, rfl, howned, ?_⟩
      refine hnewest rfl (CardRow.ofCard other) ?_ howned.symm rfl
      rw [hrows]
      exact List.mem_cons_of_mem _ List.mem_cons_self

end CardCache

end EndToEnd
