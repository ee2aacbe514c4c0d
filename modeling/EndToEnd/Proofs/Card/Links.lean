/-
  The links between the cards of a cache.

  A card names the card that it replaces, which should belong to the same identity and be older. The
  cache compares the two when the successor arrives, and only then: a card that arrives after one
  that names it is not compared with it.

  Proved:
  * `ComparedFollow.adopt`, `TimelyFollow.adopt`: one card that is taken keeps what holds of links.
  * `follows_of_run`: after every run, a link between two cached cards is as it should be, if the
    two were compared, or if ids tell cards apart and the predecessor was taken before a card that
    names it.
  * `taken_pair`: a predecessor that arrives late is taken whatever it says, so the exception is a
    real one (`link_to_other_identity`).
-/
import EndToEnd.Proofs.Card.History

namespace EndToEnd

/-- The row can follow another one: that one is of the same identity, and older. -/
def CardRow.Follows (r p : CardRow) : Prop := p.identity = r.identity ∧ p.createdAt < r.createdAt

instance (r p : CardRow) : Decidable (r.Follows p) := inferInstanceAs (Decidable (_ ∧ _))

@[simp] theorem CardRow.facing_follows (r p : CardRow) (c : Card) :
    (r.facing c).Follows p ↔ r.Follows p := by
  simp [Follows]

@[simp] theorem CardRow.follows_facing (r p : CardRow) (c : Card) :
    r.Follows (p.facing c) ↔ r.Follows p := by
  simp [Follows]

namespace CacheRun

/-- No card with the one id was taken before a card with the other. -/
def Late (taken : List Card) (previousId id : String) : Prop :=
  taken.Pairwise fun d c => d.id = previousId → c.id ≠ id

instance (taken : List Card) (previousId id : String) : Decidable (Late taken previousId id) :=
  inferInstanceAs (Decidable (List.Pairwise _ _))

/-- Of the cards that were taken, one with the second id found one with the first id cached, and
none with the first id was taken since. -/
def Compared (taken : List Card) (previousId id : String) : Prop :=
  ∃ before c after, taken = before ++ c :: after ∧ c.id = id ∧
    (∃ d ∈ before, d.id = previousId) ∧ ∀ d ∈ c :: after, d.id ≠ previousId

variable {t : CardRows} {taken : List Card} {c : Card} {previousId id : String}

theorem late_snoc :
    Late (taken ++ [c]) previousId id ↔
      Late taken previousId id ∧ ((∃ d ∈ taken, d.id = previousId) → c.id ≠ id) := by
  simp [Late, List.pairwise_append]

theorem late_of_new (h : ¬ ∃ d ∈ taken, d.id = previousId) : Late taken previousId id :=
  List.pairwise_of_forall_mem_list fun d hd _ _ hid => absurd ⟨d, hd, hid⟩ h

/-- The last card has not the id of the first, and what else was compared was compared before. -/
theorem Compared.of_snoc (h : Compared (taken ++ [c]) previousId id) :
    c.id ≠ previousId ∧ (c.id ≠ id → Compared taken previousId id) := by
  obtain ⟨before, d, after, htaken, hid, hbefore, hsince⟩ := h
  rcases List.eq_nil_or_concat after with rfl | ⟨rest, e, rfl⟩
  · obtain ⟨rfl, hlast⟩ := List.append_inj' htaken rfl
    obtain rfl : c = d := List.singleton_inj.1 hlast
    exact ⟨hsince c (by simp), fun hne => absurd hid hne⟩
  · rw [List.concat_eq_append, ← List.cons_append, ← List.append_assoc] at htaken
    obtain ⟨rfl, hlast⟩ := List.append_inj' htaken rfl
    obtain rfl : c = e := List.singleton_inj.1 hlast
    rw [List.concat_eq_append] at hsince
    refine ⟨hsince c (by simp), fun _ => ⟨before, d, rest, rfl, hid, hbefore, fun x hx => ?_⟩⟩
    exact hsince x (List.mem_append_left [c] hx)

/-- The card that is taken can follow the predecessor that it finds. -/
theorem follows_of_refusal {p : CardRow} (hc : t.refusal c = none) (hp : p ∈ t.rows)
    (hlink : c.previousId = some p.id) (b : Bool) :
    (CardRow.ofCard { c with outdated := b }).Follows p :=
  CardRows.refusal_eq_none.1 hc p (CardRows.predecessor?_eq_some.2 ⟨hlink, hp⟩)

/-- The links whose cards were compared are as they should be. -/
def ComparedFollow (t : CardRows) (taken : List Card) : Prop :=
  ∀ r ∈ t.rows, ∀ p ∈ t.rows, r.previousId = some p.id → Compared taken p.id r.id → r.Follows p

theorem ComparedFollow.adopt (h : ComparedFollow t taken) (hc : t.refusal c = none) :
    ComparedFollow (t.adopt c) (taken ++ [c]) := by
  intro r hr p hp hlink hcompared
  obtain ⟨hnew, hold⟩ := hcompared.of_snoc
  rcases CardRows.mem_adopt.1 hp with rfl | ⟨q, hq, -, rfl⟩
  · exact absurd rfl hnew
  · rcases CardRows.mem_adopt.1 hr with rfl | ⟨s, hs, hne, rfl⟩
    · rw [CardRow.facing_id] at hlink
      rw [CardRow.follows_facing]
      exact follows_of_refusal hc hq hlink _
    · simp only [CardRow.facing_id, CardRow.facing_previousId] at hlink hold
      rw [CardRow.facing_follows, CardRow.follows_facing]
      exact h s hs q hq hlink (by simpa using hold (Ne.symm hne))

/-- The links are as they should be, apart from those whose predecessor came late. -/
def TimelyFollow (t : CardRows) (taken : List Card) : Prop :=
  ∀ r ∈ t.rows, ∀ p ∈ t.rows, r.previousId = some p.id → ¬ Late taken p.id r.id → r.Follows p

/-- A card that was taken before is still cached, with what it says. -/
theorem exists_row_again (h : Recorded t taken) (hd : Card.Distinct (taken ++ [c]))
    (hagain : ∃ d ∈ taken, d.id = c.id) :
    ∃ q ∈ t.rows, q.id = c.id ∧ q.identity = c.identity ∧ q.createdAt = c.createdAt := by
  obtain ⟨d, hmem, hid⟩ := hagain
  obtain ⟨q, hq, hqd⟩ := h.row d hmem
  have hdc := hd d (by simp [hmem]) c (by simp) hid
  exact ⟨q, hq, hqd.id.trans hid, hqd.identity.trans hdc.identity, hqd.createdAt.trans hdc.createdAt⟩

theorem TimelyFollow.adopt (h : TimelyFollow t taken) (hrec : Recorded t taken)
    (hd : Card.Distinct (taken ++ [c])) (hc : t.refusal c = none) :
    TimelyFollow (t.adopt c) (taken ++ [c]) := by
  intro r hr p hp hlink htimely
  rcases CardRows.mem_adopt.1 hr with rfl | ⟨s, hs, hne, rfl⟩
  · rcases CardRows.mem_adopt.1 hp with rfl | ⟨q, hq, -, rfl⟩
    · -- a card that names itself is refused where it is cached, and else it was not taken before
      have hlink : c.previousId = some c.id := hlink
      have hnew : ¬ ∃ d ∈ taken, d.id = c.id := by
        intro hagain
        obtain ⟨q, hq, hid, -, hcreated⟩ := exists_row_again hrec hd hagain
        have hlt := (follows_of_refusal hc hq (hid ▸ hlink) false).2
        rw [hcreated] at hlt
        exact Int64.lt_irrefl hlt
      refine absurd (late_snoc.2 ⟨late_of_new hnew, fun hagain => absurd hagain hnew⟩) htimely
    · rw [CardRow.follows_facing]
      exact follows_of_refusal hc hq (by simpa using hlink) _
  · simp only [CardRow.facing_id, CardRow.facing_previousId] at hlink htimely
    have htimely : ¬ Late taken p.id s.id :=
      fun hlate => htimely (late_snoc.2 ⟨hlate, fun _ => Ne.symm hne⟩)
    rw [CardRow.facing_follows]
    rcases CardRows.mem_adopt.1 hp with rfl | ⟨q, hq, -, rfl⟩
    · -- the predecessor was taken before, and says what it said then
      have hagain : ∃ d ∈ taken, d.id = c.id :=
        Decidable.byContradiction fun hnew => htimely (late_of_new hnew)
      obtain ⟨q, hq, hid, hidentity, hcreated⟩ := exists_row_again hrec hd hagain
      obtain ⟨hi, ht⟩ := h s hs q hq (by rw [hid]; exact hlink) (by rw [hid]; exact htimely)
      exact ⟨hidentity.symm.trans hi, hcreated ▸ ht⟩
    · rw [CardRow.follows_facing]
      exact h s hs q hq (by simpa using hlink) (by simpa using htimely)

variable {S : CipherSuite} {policy : DuplicatePolicy} {steps : List CacheStep}

/-- A card that is not refused is taken. -/
theorem step_store {s : CacheRun} (hs : s.cache.Reliable) (hc : s.cache.rows.refusal c = none) :
    s.step (.store c) = ⟨{ s.cache with rows := s.cache.rows.adopt c }, s.taken ++ [c]⟩ := by
  have hrun : CardCache.store c s.cache =
      (.ok (), { s.cache with rows := s.cache.rows.adopt c }) := by
    rw [CardCache.store_run hs, hc]
  unfold step takenFrom takenFrom
  dsimp only [CacheStep.action]
  rw [hrun]

/-- Of two cards that are stored one after the other, the second is refused only where it names the
first and cannot follow it. The first may name the second and say what it likes. -/
theorem taken_pair {c d : Card} (policy : DuplicatePolicy)
    (hd : d.previousId = some c.id → c.identity = d.identity ∧ c.createdAt < d.createdAt) :
    (ofSteps policy [.store c, .store d]).taken = [c, d] := by
  have hstart := CardCache.reliable_empty policy
  have hfirst : CardRows.refusal .empty c = none := by
    refine CardRows.refusal_eq_none.2 fun p hp => ?_
    cases (CardRows.predecessor?_eq_some.1 hp).2
  have hsecond : (CardRows.adopt .empty c).refusal d = none := by
    refine CardRows.refusal_eq_none.2 fun p hp => ?_
    obtain ⟨hlink, hmem⟩ := CardRows.predecessor?_eq_some.1 hp
    rcases CardRows.mem_adopt.1 hmem with rfl | ⟨q, hq, -, -⟩
    · exact hd hlink
    · cases hq
  have hrun : ofSteps policy [.store c, .store d] =
      ((CacheRun.mk (.empty policy) []).step (.store c)).step (.store d) := rfl
  have hstep : (CacheRun.mk (.empty policy) []).step (.store c) = _ := step_store hstart hfirst
  rw [hrun, hstep, step_store (hstart.withRows _) hsecond]
  rfl

/-- Two cards that were taken are linked in the cache as they are. -/
theorem exists_rows_of_taken (policy : DuplicatePolicy) (h : Fair S steps) {c d : Card}
    (hc : c ∈ (ofSteps policy steps).taken) (hd : d ∈ (ofSteps policy steps).taken)
    (hlink : d.previousId = some c.id) :
    ∃ r ∈ (ofSteps policy steps).cache.rows.rows, ∃ p ∈ (ofSteps policy steps).cache.rows.rows,
      r.Describes d ∧ p.Describes c ∧ r.previousId = some p.id := by
  have hlawful : (ofSteps policy steps).Lawful := lawful_ofSteps h
  have hrec := hlawful.recorded
  obtain ⟨r, hr, hrd⟩ := hrec.row d hd
  obtain ⟨p, hp, hpc⟩ := hrec.row c hc
  exact ⟨r, hr, p, hp, hrd, hpc, by rw [hrd.previousId, hlink, hpc.id]⟩

/-- After every run, whatever cards it brought: a cached card that names another one can follow it,
if it was compared with it, or if the other one was not late and ids tell cards apart. -/
theorem follows_of_run (policy : DuplicatePolicy) (steps : List CacheStep) :
    let s := ofSteps policy steps
    ∀ r ∈ s.cache.rows.rows, ∀ p ∈ s.cache.rows.rows, r.previousId = some p.id →
      (Compared s.taken p.id r.id ∨ Fair S steps ∧ ¬ Late s.taken p.id r.id) →
        p.identity = r.identity ∧ p.createdAt < r.createdAt := by
  intro s r hr p hp hlink hcases
  have hcompared : ComparedFollow s.cache.rows s.taken :=
    holds_ofSteps (by intro r hr; cases hr) fun t taken c h _ hc => h.adopt hc
  rcases hcases with h | ⟨hfair, h⟩
  · exact hcompared r hr p hp hlink h
  · have hempty : Recorded .empty [] ∧ TimelyFollow .empty [] :=
      ⟨Recorded.empty, by intro r hr; cases hr⟩
    have hkept : Recorded s.cache.rows s.taken ∧ TimelyFollow s.cache.rows s.taken :=
      holds_ofSteps (P := fun t taken => Recorded t taken ∧ TimelyFollow t taken) hempty
        fun t taken c h hsub hc => by
          have hd := hfair.cards_distinct.mono hsub
          exact ⟨h.1.adopt hd hc, h.2.adopt h.1 hd hc⟩
    exact hkept.2 r hr p hp hlink h

/-- A user's second card is stored after the first, and follows it. -/
theorem follows_of_replacement : ∃ first second : Card, ∃ r p : CardRow,
    let s := ofSteps .reject [.store first, .store second]
    (r ∈ s.cache.rows.rows ∧ p ∈ s.cache.rows.rows ∧ r.previousId = some p.id) ∧
      (Fair .transparent [.store first, .store second] ∧ ¬ Late s.taken p.id r.id) ∧
        p.identity = r.identity ∧ p.createdAt < r.createdAt := by
  obtain ⟨first, hfirst⟩ : ∃ c, cardOfAlice 1 none = c := ⟨_, rfl⟩
  obtain ⟨second, hsecond⟩ : ∃ c, cardOfAlice 2 (some (cardOfAlice 1 none).id) = c := ⟨_, rfl⟩
  have hids : first.id ≠ second.id := hfirst ▸ hsecond ▸ id_cardOfAlice_ne
  have hlink : second.previousId = some first.id := by rw [← hsecond, ← hfirst]; rfl
  have hfair : Fair .transparent [.store first, .store second] :=
    fair_of_pair (hfirst ▸ genuine_cardOfAlice 1 none) (hsecond ▸ genuine_cardOfAlice 2 _) hids
      (by simp [CacheStep.cards])
  have htaken : (ofSteps .reject [.store first, .store second]).taken = [first, second] := by
    refine taken_pair .reject fun _ => ?_
    rw [← hfirst, ← hsecond]
    exact ⟨rfl, by decide⟩
  obtain ⟨r, hr, p, hp, hrd, hpd, hrp⟩ := exists_rows_of_taken .reject hfair
    (by rw [htaken]; simp : first ∈ _) (by rw [htaken]; simp) hlink
  have hlate : ¬ Late [first, second] p.id r.id := by
    rw [hpd.id, hrd.id]
    simp [Late]
  refine ⟨first, second, r, p, ⟨hr, hp, hrp⟩, ⟨hfair, htaken ▸ hlate⟩, ?_⟩
  exact follows_of_run .reject _ r hr p hp hrp (.inr ⟨hfair, htaken ▸ hlate⟩)

/-- A card of another user than `cardOfAlice`. -/
def cardOfMallory (createdAt : Timestamp) (previousId : Option String) : Card :=
  let key : KeyPair := ⟨.zero 32, .zero 32⟩
  .signed .transparent key
    ⟨CardContent.currentVersion, "mallory", key.publicKey .transparent, createdAt, previousId⟩

theorem genuine_cardOfMallory (createdAt : Timestamp) (previousId : Option String) :
    (cardOfMallory createdAt previousId).Genuine .transparent :=
  Card.genuine_signed CipherSuite.transparent_accepts rfl

theorem id_cardOfMallory_ne :
    (cardOfMallory 1 (some (cardOfAlice 2 none).id)).id ≠ (cardOfAlice 2 none).id := by
  decide +kernel

/-- A card names an earlier published card of another user, and arrives first: both are cached, and
the card that it names is of another identity and not older. -/
theorem link_to_other_identity : ∃ first second : Card, ∃ r p : CardRow,
    Card.ofRaw .transparent first.raw = .ok first ∧
      Card.ofRaw .transparent second.raw = .ok second ∧
      let s := ofSteps .reject [.store second, .store first]
      (r ∈ s.cache.rows.rows ∧ p ∈ s.cache.rows.rows ∧ r.previousId = some p.id) ∧
        p.identity ≠ r.identity ∧ ¬ p.createdAt < r.createdAt := by
  obtain ⟨first, hfirst⟩ : ∃ c, cardOfAlice 2 none = c := ⟨_, rfl⟩
  obtain ⟨second, hsecond⟩ : ∃ c, cardOfMallory 1 (some (cardOfAlice 2 none).id) = c := ⟨_, rfl⟩
  have hgenuine₁ : first.Genuine .transparent := hfirst ▸ genuine_cardOfAlice 2 none
  have hgenuine₂ : second.Genuine .transparent := hsecond ▸ genuine_cardOfMallory 1 _
  have hids : second.id ≠ first.id := hfirst ▸ hsecond ▸ id_cardOfMallory_ne
  have hlink : second.previousId = some first.id := by rw [← hsecond, ← hfirst]; rfl
  have hnone : first.previousId = none := by rw [← hfirst]; rfl
  have hfair : Fair .transparent [.store second, .store first] :=
    fair_of_pair hgenuine₂ hgenuine₁ hids (by simp [CacheStep.cards])
  have htaken : (ofSteps .reject [.store second, .store first]).taken = [second, first] :=
    taken_pair .reject fun h => by rw [hnone] at h; cases h
  obtain ⟨r, hr, p, hp, hrd, hpd, hrp⟩ := exists_rows_of_taken .reject hfair
    (by rw [htaken]; simp : first ∈ _) (by rw [htaken]; simp) hlink
  refine ⟨first, second, r, p, ?_, ?_, ⟨hr, hp, hrp⟩, ?_, ?_⟩
  · exact hgenuine₁.trans (by rw [← hfirst]; rfl)
  · exact hgenuine₂.trans (by rw [← hsecond]; rfl)
  · rw [hpd.identity, hrd.identity, ← hfirst, ← hsecond]
    decide
  · rw [hpd.createdAt, hrd.createdAt, ← hfirst, ← hsecond]
    decide

end CacheRun

end EndToEnd
