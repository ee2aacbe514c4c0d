/-
  The chain of a card, read from a cache whose rows may hold anything.

  The walk back from a card is described by `Walks`: it goes on to a row that was not met before and
  whose card belongs to the same identity and is older, and `Ends` lists the reasons for which it ends.
  Rows may form cycles, be missing or lead to other identities; reading may fail; but a chain that is
  read obeys `Resolves`, which says everything that the walk guarantees.

  Proved:
  * `CardCache.ancestors_ok`: what is read behind a card is a walk.
  * `CardCache.resolves_of_get`, `CardCache.resolves_of_search`: every chain that is read is resolved.
  * `CardCache.store_filed`, `CardCache.after_filed`: stores and resets, failed ones too, leave every row
    marked that another row of its identity names.
  * `CardCache.chain_of_read`: every chain that is read is resolved, and in a cache that only stores and
    resets have changed every card behind its head is marked as replaced.
-/
import EndToEnd.Proofs.Card.Choose
import EndToEnd.Proofs.Card.Fault

namespace EndToEnd

variable {S : CipherSuite} {t : CardRows}

theorem CardRow.toCard_ok {r : CardRow} {c : Card} (h : r.toCard S = .ok c) :
    c.id = r.id ∧ c.outdated = r.outdated := by
  unfold toCard at h
  split at h
  · cases h
  · split at h
    · rename_i hid
      cases h
      exact ⟨hid, rfl⟩
    · cases h

/-! ## Neighbours in a list -/

section Neighbours

variable {α : Type} {a b : α} {as : List α}

/-- What is behind the first item has an item in front of it. -/
theorem exists_mem_zip_tail (a : α) (h : b ∈ as) : ∃ c, (c, b) ∈ (a :: as).zip as := by
  induction as generalizing a with
  | nil => cases h
  | cons d as ih =>
    rw [List.zip_cons_cons]
    rcases List.mem_cons.1 h with rfl | h
    · exact ⟨a, List.mem_cons_self⟩
    · obtain ⟨c, hc⟩ := ih d h
      exact ⟨c, List.mem_cons_of_mem _ hc⟩

theorem rel_of_mem_zip_tail {R : α → α → Prop} {p : α × α} (h : (a :: as).Pairwise R)
    (hp : p ∈ (a :: as).zip as) : R p.1 p.2 := by
  induction as generalizing a with
  | nil => cases hp
  | cons d as ih =>
    obtain ⟨hhead, htail⟩ := List.pairwise_cons.1 h
    rw [List.zip_cons_cons] at hp
    rcases List.mem_cons.1 hp with rfl | hp
    · exact hhead d List.mem_cons_self
    · exact ih htail hp

end Neighbours

namespace CardRows

/-- The card is what its row holds, with the mark of the row. -/
def Reads (S : CipherSuite) (t : CardRows) (c : Card) : Prop :=
  ∃ r, t.find? c.id = some r ∧ r.toCard S = .ok c ∧ c.outdated = r.outdated

/-- Why a chain does not go on behind a card, where `ids` were met already. -/
inductive Ends (S : CipherSuite) (t : CardRows) (ids : List String) (c : Card) : Prop
  | first (h : c.previousId = none)
  | repeated (id : String) (h : c.previousId = some id) (hmet : id ∈ ids)
  | missing (id : String) (h : c.previousId = some id) (hmissing : t.find? id = none)
  | foreign (p : Card) (h : c.previousId = some p.id) (hread : t.Reads S p)
      (hforeign : p.identity ≠ c.identity)
  | notOlder (p : Card) (h : c.previousId = some p.id) (hread : t.Reads S p)
      (hle : c.createdAt ≤ p.createdAt)

/-- The way back from a card: the cards behind it, where `visited` were met already. -/
inductive Walks (S : CipherSuite) (t : CardRows) : (visited : List String) → Card → List Card → Prop
  | stop {visited : List String} {c : Card} (h : t.Ends S visited c) : Walks S t visited c []
  | next {visited : List String} {c p : Card} {cs : List Card} (h : c.previousId = some p.id)
      (hnew : p.id ∉ visited) (hread : t.Reads S p) (howned : p.identity = c.identity)
      (holder : p.createdAt < c.createdAt) (rest : Walks S t (p.id :: visited) p cs) :
      Walks S t visited c (p :: cs)

/-- What is true of a chain that was read: each card is what its row holds, all belong to the identity
of the head, each names the next one, they get older, none stands there twice, and the chain goes on
as far as it can. -/
structure Resolves (S : CipherSuite) (t : CardRows) (chain : CardChain) : Prop where
  read : ∀ c ∈ chain.cards, t.Reads S c
  owned : ∀ c ∈ chain.cards, c.identity = chain.head.identity
  linked : ∀ p ∈ chain.cards.zip chain.ancestors, p.1.previousId = some p.2.id
  falling : (chain.cards.map (·.createdAt)).Pairwise (· > ·)
  distinct : (chain.cards.map (·.id)).Nodup
  ends : t.Ends S (chain.cards.map (·.id)) (chain.ancestors.getLastD chain.head)

theorem Ends.mono {ids more : List String} {c : Card} (h : t.Ends S ids c) (hsub : ids ⊆ more) :
    t.Ends S more c := by
  cases h with
  | first h => exact .first h
  | repeated id h hmet => exact .repeated id h (hsub hmet)
  | missing id h hmissing => exact .missing id h hmissing
  | foreign p h hread hforeign => exact .foreign p h hread hforeign
  | notOlder p h hread hle => exact .notOlder p h hread hle

namespace Walks

variable {visited : List String} {c : Card} {cs : List Card}

theorem read (h : t.Walks S visited c cs) : ∀ p ∈ cs, t.Reads S p := by
  induction h with
  | stop => exact nofun
  | next _ _ hread _ _ _ ih =>
    intro q hq
    rcases List.mem_cons.1 hq with rfl | hq
    · exact hread
    · exact ih q hq

theorem owned (h : t.Walks S visited c cs) : ∀ p ∈ cs, p.identity = c.identity := by
  induction h with
  | stop => exact nofun
  | next _ _ _ howned _ _ ih =>
    intro q hq
    rcases List.mem_cons.1 hq with rfl | hq
    · exact howned
    · exact (ih q hq).trans howned

theorem linked (h : t.Walks S visited c cs) :
    ∀ p ∈ (c :: cs).zip cs, p.1.previousId = some p.2.id := by
  induction h with
  | stop => exact nofun
  | next h _ _ _ _ _ ih =>
    intro q hq
    rw [List.zip_cons_cons] at hq
    rcases List.mem_cons.1 hq with rfl | hq
    · exact h
    · exact ih q hq

theorem falling (h : t.Walks S visited c cs) :
    ((c :: cs).map (·.createdAt)).Pairwise (· > ·) := by
  induction h with
  | stop => exact List.pairwise_singleton _ _
  | @next _ c p cs _ _ _ _ holder _ ih =>
    rw [List.map_cons, List.pairwise_cons]
    refine ⟨fun time htime => ?_, ih⟩
    rw [List.map_cons] at htime ih
    rcases List.mem_cons.1 htime with rfl | htime
    · exact holder
    · exact Int64.lt_trans ((List.pairwise_cons.1 ih).1 time htime) holder

theorem unmet (h : t.Walks S visited c cs) : ∀ p ∈ cs, p.id ∉ visited := by
  induction h with
  | stop => exact nofun
  | next _ hnew _ _ _ _ ih =>
    intro q hq
    rcases List.mem_cons.1 hq with rfl | hq
    · exact hnew
    · exact fun hmet => ih q hq (List.mem_cons_of_mem _ hmet)

theorem distinct (h : t.Walks S visited c cs) : (cs.map (·.id)).Nodup := by
  induction h with
  | stop => exact List.nodup_nil
  | next _ _ _ _ _ hrest ih =>
    rw [List.map_cons, List.nodup_cons]
    refine ⟨fun hmem => ?_, ih⟩
    obtain ⟨q, hq, hid⟩ := List.mem_map.1 hmem
    exact hrest.unmet q hq (hid ▸ List.mem_cons_self)

theorem ends (h : t.Walks S visited c cs) : t.Ends S (cs.map (·.id) ++ visited) (cs.getLastD c) := by
  induction h with
  | stop h => exact h
  | next _ _ _ _ _ _ ih =>
    rw [List.getLastD_cons]
    refine ih.mono fun id hid => ?_
    simp only [List.map_cons, List.mem_append, List.mem_cons] at hid ⊢
    rcases hid with hid | rfl | hid
    · exact .inl (.inr hid)
    · exact .inl (.inl rfl)
    · exact .inr hid

/-- A card that is what its row holds makes a resolved chain with the way back from it. -/
theorem resolves (h : t.Walks S [c.id] c cs) (hread : t.Reads S c) : t.Resolves S ⟨c, cs⟩ where
  read := by
    intro p hp
    rcases List.mem_cons.1 hp with rfl | hp
    · exact hread
    · exact h.read p hp
  owned := by
    intro p hp
    rcases List.mem_cons.1 hp with rfl | hp
    · rfl
    · exact h.owned p hp
  linked := h.linked
  falling := h.falling
  distinct := by
    refine List.nodup_cons.2 ⟨fun hmem => ?_, h.distinct⟩
    obtain ⟨p, hp, hid⟩ := List.mem_map.1 hmem
    exact h.unmet p hp (List.mem_singleton.2 hid)
  ends := by
    refine h.ends.mono fun id hid => ?_
    rcases List.mem_append.1 hid with hid | hid
    · exact List.mem_cons_of_mem _ hid
    · exact List.mem_cons.2 (.inl (List.mem_singleton.1 hid))

end Walks

end CardRows

namespace CardCache

variable {k k' : CardCache}

/-- A query that succeeds reads the rows and leaves them. -/
theorem query_ok {α : Type} {read : CardRows → α} {a : α} (h : query read k = (.ok a, k')) :
    a = read k.rows ∧ k'.rows = k.rows := by
  unfold query at h
  split at h
  · cases h
  · cases h
    exact ⟨rfl, rfl⟩

/-- What is read behind a card is a way back from it. -/
theorem ancestors_ok {k k' : CardCache} {visited : List String} {c : Card} {cs : List Card}
    (h : ancestors S c.identity visited c.createdAt c.previousId k = (.ok cs, k')) :
    k'.rows = k.rows ∧ k.rows.Walks S visited c cs := by
  cases hprevious : c.previousId with
  | none =>
    rw [hprevious, ancestors] at h
    cases h
    exact ⟨rfl, .stop (.first hprevious)⟩
  | some id =>
    rw [hprevious, ancestors] at h
    by_cases hmet : id ∈ visited
    · rw [if_pos hmet] at h
      cases h
      exact ⟨rfl, .stop (.repeated id hprevious hmet)⟩
    · rw [if_neg hmet] at h
      obtain ⟨found, u, hquery, h⟩ := Action.of_bind_ok h
      obtain ⟨hfound, hu⟩ := query_ok hquery
      cases found with
      | none =>
        cases h
        exact ⟨hu, .stop (.missing id hprevious hfound.symm)⟩
      | some r =>
        obtain ⟨p, hp, h⟩ := Action.of_lift_bind_ok h
        obtain ⟨hpid, hmark⟩ := CardRow.toCard_ok hp
        obtain rfl : p.id = id := hpid.trans (Table.key_of_find? hfound.symm)
        have hread : k.rows.Reads S p := ⟨r, hfound.symm, hp, hmark⟩
        by_cases hgoes : p.identity = c.identity ∧ p.createdAt < c.createdAt
        · rw [dif_pos hgoes] at h
          obtain ⟨older, v, hrest, h⟩ := Action.of_bind_ok h
          cases h
          rw [← hgoes.1] at hrest
          obtain ⟨hv, hwalks⟩ := ancestors_ok hrest
          rw [hu] at hv hwalks
          exact ⟨hv, .next hprevious hmet hread hgoes.1 hgoes.2 hwalks⟩
        · rw [dif_neg hgoes] at h
          cases h
          refine ⟨hu, .stop ?_⟩
          by_cases howned : p.identity = c.identity
          · exact .notOlder p hprevious hread (Int64.not_lt.1 fun hlt => hgoes ⟨howned, hlt⟩)
          · exact .foreign p hprevious hread howned
termination_by c.createdAt.rank
decreasing_by exact Timestamp.rank_lt hgoes.2

/-- A way back from a card is what is read behind it, where the table fails no call. -/
theorem ancestors_of_walks {k : CardCache} (hk : k.Reliable) {visited : List String} {c : Card}
    {cs : List Card} (h : k.rows.Walks S visited c cs) :
    ancestors S c.identity visited c.createdAt c.previousId k = (.ok cs, k) := by
  have found : ∀ {visited : List String} {c p : Card}, c.previousId = some p.id →
      p.id ∉ visited → k.rows.Reads S p →
      ancestors S c.identity visited c.createdAt c.previousId k =
        if p.identity = c.identity ∧ p.createdAt < c.createdAt then
          (ancestors S c.identity (p.id :: visited) p.createdAt p.previousId >>= fun older =>
            pure (p :: older)) k
        else (.ok [], k) := by
    intro visited c p hprevious hnew hread
    obtain ⟨r, hr, hcard, -⟩ := hread
    rw [hprevious, ancestors, if_neg hnew, Action.bind_ok (query_run hk _), hr]
    dsimp only
    rw [hcard, Action.bind_ok (Action.lift_run _ _)]
    split <;> rfl
  induction h with
  | @stop visited c h =>
    cases h with
    | first hprevious => rw [hprevious, ancestors]; rfl
    | repeated id hprevious hmet => rw [hprevious, ancestors, if_pos hmet]; rfl
    | missing id hprevious hmissing =>
      rw [hprevious, ancestors]
      split
      · rfl
      · rw [Action.bind_ok (query_run hk _), hmissing]
        rfl
    | foreign p hprevious hread hforeign =>
      by_cases hmet : p.id ∈ visited
      · rw [hprevious, ancestors, if_pos hmet]
        rfl
      · rw [found hprevious hmet hread, if_neg fun hgoes => hforeign hgoes.1]
    | notOlder p hprevious hread hle =>
      by_cases hmet : p.id ∈ visited
      · rw [hprevious, ancestors, if_pos hmet]
        rfl
      · rw [found hprevious hmet hread, if_neg fun hgoes => Int64.not_lt.2 hle hgoes.2]
  | next hprevious hnew hread howned holder _ ih =>
    rw [howned] at ih
    rw [found hprevious hnew hread, if_pos ⟨howned, holder⟩, Action.bind_ok ih]
    rfl

theorem resolve_of_walks {k : CardCache} (hk : k.Reliable) {r : CardRow} {c : Card} {cs : List Card}
    (hr : r.toCard S = .ok c) (h : k.rows.Walks S [c.id] c cs) :
    resolve S r k = (.ok ⟨c, cs⟩, k) := by
  rw [resolve, hr, Action.bind_ok (Action.lift_run _ _), Action.bind_ok (ancestors_of_walks hk h)]
  rfl

theorem get_of_walks {k : CardCache} (hk : k.Reliable) {c : Card} {cs : List Card}
    (hread : k.rows.Reads S c) (h : k.rows.Walks S [c.id] c cs) :
    get S c.id k = (.ok (some ⟨c, cs⟩), k) := by
  obtain ⟨r, hr, hcard, -⟩ := hread
  rw [get, Action.bind_ok (query_run hk _), hr]
  dsimp only
  rw [Action.map_run, resolve_of_walks hk hcard h]
  rfl

theorem toCard_of_resolve {r : CardRow} {chain : CardChain} (h : resolve S r k = (.ok chain, k')) :
    r.toCard S = .ok chain.head := by
  obtain ⟨c, hc, h⟩ := Action.of_lift_bind_ok h
  obtain ⟨older, u, -, h⟩ := Action.of_bind_ok h
  cases h
  exact hc

theorem resolve_ok {r : CardRow} {chain : CardChain} (hr : k.rows.find? r.id = some r)
    (h : resolve S r k = (.ok chain, k')) :
    k'.rows = k.rows ∧ k.rows.Resolves S chain ∧ chain.head.id = r.id := by
  obtain ⟨c, hc, h⟩ := Action.of_lift_bind_ok h
  obtain ⟨older, u, holder, h⟩ := Action.of_bind_ok h
  cases h
  obtain ⟨hid, hmark⟩ := CardRow.toCard_ok hc
  obtain ⟨hu, hwalks⟩ := ancestors_ok holder
  rw [← hid] at hr
  exact ⟨hu, hwalks.resolves ⟨r, hr, hc, hmark⟩, hid⟩

/-- A card that is got by its id comes with a resolved chain. -/
theorem resolves_of_get {id : String} {chain : CardChain} (h : get S id k = (.ok (some chain), k')) :
    k.rows.Resolves S chain ∧ chain.head.id = id := by
  obtain ⟨found, u, hquery, h⟩ := Action.of_bind_ok h
  obtain ⟨hfound, hu⟩ := query_ok hquery
  cases found with
  | none => cases h
  | some r =>
    obtain ⟨hr, hrid⟩ := Table.find?_eq_some_iff.1 hfound.symm
    dsimp only at h
    rw [Action.map_run] at h
    cases hrun : resolve S r u with
    | mk result v =>
      rw [hrun] at h
      cases result with
      | error e => cases h
      | ok c =>
        cases h
        rw [← hu] at hr ⊢
        obtain ⟨-, hresolves, hid⟩ := resolve_ok (Table.find?_key hr) hrun
        exact ⟨hresolves, hid.trans hrid⟩

/-- The card that is taken for an identity's current one comes with a resolved chain, and is that of a
current row of the identity. -/
theorem current_ok {identity : String} {found : Option CardChain}
    (h : current S identity k = (.ok found, k')) :
    k'.rows = k.rows ∧ ∀ chain, found = some chain → k.rows.Resolves S chain ∧
      ∃ r ∈ k.rows.standing identity, r.id = chain.head.id := by
  obtain ⟨rows, u, hquery, h⟩ := Action.of_bind_ok h
  obtain ⟨rfl, hu⟩ := query_ok hquery
  cases hrows : (k.rows.ofIdentity identity).filter fun r => !r.outdated with
  | nil =>
    rw [hrows] at h
    cases h
    exact ⟨hu, nofun⟩
  | cons r rs =>
    rw [hrows] at h
    dsimp only at h
    rw [Action.bind_ok (Action.getThe_run _)] at h
    obtain ⟨row, hchoose, h⟩ := Action.of_lift_bind_ok h
    have hstanding : row ∈ k.rows.standing identity := by
      rw [CardRows.standing, hrows]
      exact DuplicatePolicy.mem_of_choose hchoose
    obtain ⟨hrow, -, -⟩ := CardRows.mem_standing.1 hstanding
    rw [← hu] at hrow
    rw [Action.map_run] at h
    cases hrun : resolve S row u with
    | mk result v =>
      rw [hrun] at h
      cases result with
      | error e => cases h
      | ok chain =>
        cases h
        obtain ⟨hv, hresolves, hid⟩ := resolve_ok (Table.find?_key hrow) hrun
        rw [hu] at hv hresolves
        refine ⟨hv, fun c hc => ?_⟩
        rw [← Option.some.inj hc]
        exact ⟨hresolves, row, hstanding, hid.symm⟩

theorem searchFrom_ok {seen identities : List String} {chains : List CardChain}
    (h : searchFrom S seen identities k = (.ok chains, k')) :
    ∀ chain ∈ chains, k.rows.Resolves S chain := by
  induction identities generalizing seen chains k with
  | nil =>
    cases h
    exact nofun
  | cons identity identities ih =>
    rw [searchFrom] at h
    split at h
    · exact ih h
    · obtain ⟨found, u, hcurrent, h⟩ := Action.of_bind_ok h
      obtain ⟨others, v, hothers, h⟩ := Action.of_bind_ok h
      cases h
      obtain ⟨hu, hfound⟩ := current_ok hcurrent
      intro chain hchain
      rcases List.mem_append.1 hchain with hchain | hchain
      · exact (hfound chain (Option.mem_toList.1 hchain)).1
      · rw [← hu]
        exact ih hothers chain hchain

/-- Every chain that a search gives is resolved. -/
theorem resolves_of_search {identities : List String} {chains : List CardChain}
    (h : search S identities k = (.ok chains, k')) : ∀ chain ∈ chains, k.rows.Resolves S chain :=
  searchFrom_ok h

end CardCache

/-! ## Caches that were filled by their own rules -/

namespace CardRows

variable {cards : List Card} {c : Card} {t' : CardRows}

/-- The rows are those of some of the cards, and a card that another one of its identity names is
marked. -/
structure Filed (cards : List Card) (t : CardRows) : Prop where
  card : ∀ r ∈ t.rows, ∃ c ∈ cards, r.Holds c
  named : ∀ r ∈ t.rows, ∀ q ∈ t.rows, r.previousId = some q.id → r.id ≠ q.id →
    r.identity = q.identity → q.outdated = true

theorem filed_empty (cards : List Card) : Filed cards .empty := ⟨nofun, nofun⟩

theorem Filed.congr (h : t.Filed cards) (hsame : ∀ r, r ∈ t'.rows ↔ r ∈ t.rows) : t'.Filed cards where
  card := fun r hr => h.card r ((hsame r).1 hr)
  named := fun r hr q hq => h.named r ((hsame r).1 hr) q ((hsame q).1 hq)

theorem Filed.outdatePredecessor (h : t.Filed cards) (c : Card) :
    (t.outdatePredecessor c).Filed cards := by
  constructor
  · intro r hr
    rcases mem_outdatePredecessor hr with hr | ⟨p, hp, rfl⟩
    · exact h.card r hr
    · obtain ⟨d, hd, hpd⟩ := h.card p hp
      refine ⟨d, hd, ?_⟩
      rw [CardRow.Holds, hpd]
      rfl
  · intro r hr q hq hnamed hne howned
    rcases mem_outdatePredecessor hq with hq | ⟨q, hq, rfl⟩
    · rcases mem_outdatePredecessor hr with hr | ⟨p, hp, rfl⟩
      · exact h.named r hr q hq hnamed hne howned
      · exact h.named p hp q hq hnamed hne howned
    · rfl

theorem Filed.adopt (h : t.Filed cards) (hc : c ∈ cards) : (t.adopt c).Filed cards := by
  constructor
  · intro r hr
    rcases mem_adopt.1 hr with rfl | ⟨p, hp, -, rfl⟩
    · exact ⟨c, hc, rfl⟩
    · obtain ⟨d, hd, hpd⟩ := h.card p hp
      exact ⟨d, hd, hpd.facing c⟩
  · intro r hr q hq hnamed hne howned
    rcases mem_adopt.1 hq with rfl | ⟨o, ho, -, rfl⟩
    · rcases mem_adopt.1 hr with rfl | ⟨p, hp, -, rfl⟩
      · exact absurd rfl hne
      · -- a row names the card that came, so it is written with the mark
        rw [CardRow.facing_previousId] at hnamed
        rw [CardRow.facing_id] at hne
        rw [CardRow.facing_identity] at howned
        have hnames : t.names c = true := names_eq_true.2 ⟨p, hp, howned, hne, hnamed⟩
        show t.mark c = true
        rw [mark, hnames, Bool.or_true]
    · rw [CardRow.facing_outdated]
      rw [CardRow.facing_id] at hnamed hne
      rw [CardRow.facing_identity] at howned
      rcases mem_adopt.1 hr with rfl | ⟨p, hp, -, rfl⟩
      · exact .inr hnamed
      · rw [CardRow.facing_previousId] at hnamed
        rw [CardRow.facing_id] at hne
        rw [CardRow.facing_identity] at howned
        exact .inl (h.named p hp o ho hnamed hne howned)

/-- A row holds the card that is read from it, where the cards are genuine. -/
theorem Filed.ofCard_of_reads (h : t.Filed cards) (hg : ∀ c ∈ cards, c.Genuine S)
    (hc : t.Reads S c) : CardRow.ofCard c ∈ t.rows := by
  obtain ⟨r, hr, hread, -⟩ := hc
  have hmem := Table.mem_of_find? hr
  obtain ⟨d, hd, hholds⟩ := h.card r hmem
  have hrow : r = CardRow.ofCard (d.marked r.outdated) := hholds
  have hcard := CardRow.toCard_ofCard ((hg d hd).marked r.outdated)
  rw [← hrow, hread] at hcard
  rw [Except.ok.inj hcard, ← hrow]
  exact hmem

/-- Behind the head of a resolved chain every card is marked. -/
theorem Filed.outdated_of_resolves (h : t.Filed cards) (hg : ∀ c ∈ cards, c.Genuine S)
    {chain : CardChain} (hchain : t.Resolves S chain) : ∀ c ∈ chain.ancestors, c.outdated = true := by
  intro c hc
  obtain ⟨newer, hpair⟩ := exists_mem_zip_tail chain.head hc
  obtain ⟨hnewer, -⟩ := List.of_mem_zip hpair
  have hmem : c ∈ chain.cards := List.mem_cons_of_mem _ hc
  have hne : newer.id ≠ c.id :=
    rel_of_mem_zip_tail (p := (newer, c)) (List.pairwise_map.1 hchain.distinct) hpair
  have howned : newer.identity = c.identity :=
    (hchain.owned newer hnewer).trans (hchain.owned c hmem).symm
  exact h.named _ (h.ofCard_of_reads hg (hchain.read newer hnewer)) _
    (h.ofCard_of_reads hg (hchain.read c hmem)) (hchain.linked _ hpair) hne howned

end CardRows

namespace CardCache

variable {cards : List Card}

/-- However a store ends, the rows stay in order. -/
theorem StoreEnds.filed {c : Card} {k : CardCache} {result : Except Error Unit} {rows : CardRows}
    (hends : StoreEnds c k result rows) (h : k.rows.Filed cards) (hc : c ∈ cards) :
    rows.Filed cards := by
  cases hends with
  | stored _ => exact h.adopt hc
  | untouched _ => exact h
  | restored _ hp => exact h.congr (CardRows.mem_restored hp)
  | marked _ _ => exact h.outdatePredecessor c

/-- Storing a card keeps the rows in order, whatever calls to the table fail. -/
theorem store_filed {c : Card} {k : CardCache} (h : k.rows.Filed cards) (hc : c ∈ cards) :
    (store c k).2.rows.Filed cards := (store_ends c k).filed h hc

theorem each_store_filed {cs : List Card} {k : CardCache} (h : k.rows.Filed cards)
    (hcs : cs ⊆ cards) : (Action.each store cs k).2.rows.Filed cards := by
  induction cs generalizing k with
  | nil => exact h
  | cons c cs ih =>
    have hstore := store_filed h (hcs List.mem_cons_self)
    rw [Action.each_cons, Action.bind_run]
    cases hrun : store c k with
    | mk result u =>
      rw [hrun] at hstore
      cases result with
      | error e => exact hstore
      | ok _ => exact ih hstore fun d hd => hcs (List.mem_cons_of_mem _ hd)

theorem step_filed {x : CacheStep} {k : CardCache} (h : k.rows.Filed cards) (hx : x.cards ⊆ cards) :
    (x.action k).2.rows.Filed cards := by
  cases x with
  | store c => exact store_filed h (hx List.mem_cons_self)
  | storeChain c => exact each_store_filed h fun d hd => hx (List.mem_reverse.1 hd)
  | reset => exact CardRows.filed_empty cards

/-- The cache after some steps, of which any may have failed. -/
def after (k : CardCache) (steps : List CacheStep) : CardCache :=
  steps.foldl (fun k x => (x.action k).2) k

theorem after_filed {steps : List CacheStep} {k : CardCache} (h : k.rows.Filed cards)
    (hsteps : steps.flatMap CacheStep.cards ⊆ cards) : (k.after steps).rows.Filed cards := by
  induction steps generalizing k with
  | nil => exact h
  | cons x xs ih =>
    rw [List.flatMap_cons, List.append_subset] at hsteps
    exact ih (step_filed h hsteps.1) hsteps.2

/-- Whatever the rows of a cache hold and whichever calls to its table fail: a card that is got by its
id, and every card that a search gives, comes with a resolved chain. In a cache that started without
rows and was changed only by stores of genuine cards and by resets, whether or not these succeeded, all
cards behind the head of such a chain are marked as replaced. -/
theorem chain_of_read (S : CipherSuite) :
    (∀ k k' : CardCache,
      (∀ id chain, get S id k = (.ok (some chain), k') →
        k.rows.Resolves S chain ∧ chain.head.id = id) ∧
      ∀ identities chains, search S identities k = (.ok chains, k') →
        ∀ chain ∈ chains, k.rows.Resolves S chain) ∧
    ∀ (k : CardCache) (steps : List CacheStep), k.rows = .empty →
      (∀ c ∈ steps.flatMap CacheStep.cards, c.Genuine S) → ∀ k' : CardCache,
        (∀ id chain, get S id (k.after steps) = (.ok (some chain), k') →
          ∀ c ∈ chain.ancestors, c.outdated = true) ∧
        ∀ identities chains, search S identities (k.after steps) = (.ok chains, k') →
          ∀ chain ∈ chains, ∀ c ∈ chain.ancestors, c.outdated = true := by
  refine ⟨fun k k' => ⟨?_, ?_⟩, fun k steps hk hg k' => ?_⟩
  · intro id chain hget
    exact resolves_of_get hget
  · intro identities chains hsearch
    exact resolves_of_search hsearch
  · have hempty : k.rows.Filed (steps.flatMap CacheStep.cards) := by
      rw [hk]
      exact CardRows.filed_empty _
    have hfiled := after_filed hempty (List.Subset.refl _)
    constructor
    · intro id chain hget
      exact hfiled.outdated_of_resolves hg (resolves_of_get hget).1
    · intro identities chains hsearch chain hchain
      exact hfiled.outdated_of_resolves hg (resolves_of_search hsearch chain hchain)

/-- A card is stored before the one that it replaces: it is read with that one behind it, marked. -/
theorem chain_of_late_predecessor :
    let first := CacheRun.cardOfAlice 1 none
    let second := CacheRun.cardOfAlice 2 (some first.id)
    let k := (empty .reject).after [.store second, .store first]
    let chain : CardChain := ⟨second, [first.marked true]⟩
    get .transparent second.id k = (.ok (some chain), k) ∧ k.rows.Resolves .transparent chain ∧
      ∀ c ∈ chain.ancestors, c.outdated = true := by
  intro first second k chain
  have hne : first.id ≠ second.id := CacheRun.id_cardOfAlice_ne
  have hfirst : first.Genuine .transparent := CacheRun.genuine_cardOfAlice _ _
  have hsecond : second.Genuine .transparent := CacheRun.genuine_cardOfAlice _ _
  have hlaws := chain_of_read .transparent
  -- what the two stores leave behind
  have hk : k = { empty .reject with rows := CardRows.adopt (CardRows.adopt .empty second) first } := by
    have hempty := reliable_empty .reject
    have hone := store_of_not_refused hempty (c := second) rfl
    have htwo := store_of_not_refused (hempty.withRows (CardRows.adopt .empty second)) (c := first) rfl
    show (store first (store second (empty .reject)).2).2 = _
    rw [hone]
    exact congrArg Prod.snd htwo
  have hreliable : k.Reliable := hk ▸ (reliable_empty .reject).withRows _
  have hrows : k.rows = CardRows.adopt (CardRows.adopt .empty second) first := by rw [hk]
  have hmark : CardRows.mark (CardRows.adopt .empty second) first = true := by
    have hnames : CardRows.names (CardRows.adopt .empty second) first = true :=
      CardRows.names_eq_true.2 ⟨_, CardRows.mem_adopt.2 (.inl rfl), rfl, hne.symm, rfl⟩
    rw [CardRows.mark, hnames, Bool.or_true]
  have hreadFirst : k.rows.Reads .transparent (first.marked true) := by
    refine ⟨CardRow.ofCard (first.marked true), ?_, CardRow.toCard_ofCard (hfirst.marked true), rfl⟩
    rw [hrows, CardRows.find?_adopt, hmark]
    exact if_pos rfl
  have hreadSecond : k.rows.Reads .transparent second := by
    refine ⟨CardRow.ofCard second, ?_, CardRow.toCard_ofCard hsecond, rfl⟩
    have hnext : first.previousId ≠ some second.id := by
      intro h
      cases h
    rw [hrows, CardRows.find?_adopt, if_neg hne, if_neg hnext, CardRows.find?_adopt]
    exact if_pos rfl
  have hwalks : k.rows.Walks .transparent [second.id] second [first.marked true] := by
    refine .next rfl ?_ hreadFirst rfl (by decide) (.stop (.first rfl))
    exact fun hmet => hne (List.mem_singleton.1 hmet)
  have hget : get .transparent second.id k = (.ok (some chain), k) :=
    get_of_walks hreliable hreadSecond hwalks
  refine ⟨hget, ((hlaws.1 k k).1 _ _ hget).1, (hlaws.2 (empty .reject) _ rfl ?_ k).1 _ _ hget⟩
  intro c hc
  rcases List.mem_cons.1 hc with rfl | hc
  · exact hsecond
  · rw [List.mem_singleton.1 hc]
    exact hfirst

end CardCache

end EndToEnd
