/-
  The rows of a card cache as a function of its history.

  A history is a run of steps from an empty cache: cards are stored on their own or with their
  chains, in any order, marked or not, and the cache is reset. A card may be refused; the history
  keeps those that were taken since the last reset.

  Proved:
  * `Recorded.adopt`: one card that is taken keeps the law of marks.
  * `recorded_run`: every run keeps it.
  * `rows_of_run`: the cached ids are those of the cards taken since the last reset; a cached card is
    marked exactly where one of these carried the mark or names it as predecessor; the current ids
    are the others in order; and two runs that took the same cards leave the same ids and marks.
-/
import EndToEnd.Proofs.Card.Parse
import EndToEnd.Proofs.CipherSuite.Transparent

namespace EndToEnd

/-- What is done to a card cache. -/
inductive CacheStep where
  | store (c : Card)
  | storeChain (c : CardChain)
  | reset

/-- A cache, and the cards that it has taken since its last reset, the earliest first. -/
structure CacheRun where
  cache : CardCache
  taken : List Card

namespace CacheStep

/-- The action of a step. -/
def action : CacheStep → Action CardCache Unit
  | store c => CardCache.store c
  | storeChain c => CardCache.storeChain c
  | reset => CardCache.reset

/-- The cards that a step brings. -/
def cards : CacheStep → List Card
  | store c => [c]
  | storeChain c => c.cards
  | reset => []

end CacheStep

namespace CacheRun

/-- Those of some cards that a cache takes, one after the other, up to the first that it refuses. -/
def takenFrom (k : CardCache) : List Card → List Card
  | [] => []
  | c :: cs =>
    match CardCache.store c k with
    | (.ok (), k) => c :: takenFrom k cs
    | (.error _, _) => []

/-- The run after one more step. -/
def step (s : CacheRun) (x : CacheStep) : CacheRun where
  cache := (x.action s.cache).2
  taken :=
    match x with
    | .store c => s.taken ++ takenFrom s.cache [c]
    | .storeChain c => s.taken ++ takenFrom s.cache c.cards.reverse
    | .reset => []

/-- The run of some steps from an empty cache. -/
def ofSteps (policy : DuplicatePolicy) (steps : List CacheStep) : CacheRun :=
  steps.foldl step ⟨.empty policy, []⟩

end CacheRun

/-! ## The law of marks -/

/-- The mark of the card with an id, if it is cached. -/
def CardRows.mark? (t : CardRows) (id : String) : Option Bool := (t.find? id).map (·.outdated)

/-- A row that was made of a card. -/
structure CardRow.Describes (r : CardRow) (c : Card) : Prop where
  id : r.id = c.id
  identity : r.identity = c.identity
  createdAt : r.createdAt = c.createdAt
  previousId : r.previousId = c.previousId

theorem CardRow.Describes.facing {r : CardRow} {c : Card} (h : r.Describes c) (d : Card) :
    (r.facing d).Describes c :=
  ⟨by simp [h.id], by simp [h.identity], by simp [h.createdAt], by simp [h.previousId]⟩

/-- A row that is a card's row, up to the mark. -/
def CardRow.Holds (r : CardRow) (c : Card) : Prop :=
  r = CardRow.ofCard { c with outdated := r.outdated }

theorem CardRow.Holds.describes {r : CardRow} {c : Card} (h : r.Holds c) : r.Describes c := by
  rw [h]
  exact ⟨rfl, rfl, rfl, rfl⟩

theorem CardRow.Holds.facing {r : CardRow} {c : Card} (h : r.Holds c) (d : Card) :
    (r.facing d).Holds c := by
  unfold CardRow.facing
  split
  · rw [h]
    rfl
  · exact h

/-- Why a card is marked: it came marked, or another card of its identity names it. -/
def Superseded (taken : List Card) (id identity : String) : Prop :=
  (∃ c ∈ taken, c.id = id ∧ c.outdated = true) ∨
    ∃ c ∈ taken, c.id ≠ id ∧ c.identity = identity ∧ c.previousId = some id

/-- The rows are those of the cards that were taken, marked by the law. -/
structure Recorded (t : CardRows) (taken : List Card) : Prop where
  row : ∀ c ∈ taken, ∃ r ∈ t.rows, r.Describes c
  card : ∀ r ∈ t.rows, ∃ c ∈ taken, r.Holds c
  marked : ∀ r ∈ t.rows, r.outdated = true ↔ Superseded taken r.id r.identity

/-- Cards with one id say the same. -/
def Card.Distinct (cards : List Card) : Prop :=
  ∀ c ∈ cards, ∀ d ∈ cards, c.id = d.id → c.Alike d

theorem Card.Distinct.mono {cards cards' : List Card} (h : Card.Distinct cards')
    (hsub : cards ⊆ cards') : Card.Distinct cards :=
  fun c hc d hd => h c (hsub hc) d (hsub hd)

theorem Superseded.mono {taken more : List Card} {id identity : String}
    (h : Superseded taken id identity) (hsub : taken ⊆ more) : Superseded more id identity := by
  rcases h with ⟨c, hc, h⟩ | ⟨c, hc, h⟩
  · exact .inl ⟨c, hsub hc, h⟩
  · exact .inr ⟨c, hsub hc, h⟩

theorem superseded_snoc {taken : List Card} {c : Card} {id identity : String} :
    Superseded (taken ++ [c]) id identity ↔
      Superseded taken id identity ∨ (c.id = id ∧ c.outdated = true) ∨
        (c.id ≠ id ∧ c.identity = identity ∧ c.previousId = some id) := by
  simp only [Superseded, List.mem_append, List.mem_singleton, or_and_right, exists_or,
    exists_eq_left]
  grind

namespace Recorded

variable {t : CardRows} {taken : List Card} {c : Card}

theorem empty : Recorded .empty [] where
  row := by simp
  card := by simp
  marked := by simp

theorem describes (h : Recorded t taken) (r : CardRow) (hr : r ∈ t.rows) :
    ∃ c ∈ taken, r.Describes c := by
  obtain ⟨c, hc, hrc⟩ := h.card r hr
  exact ⟨c, hc, hrc.describes⟩

theorem names_iff (h : Recorded t taken) (c : Card) :
    t.names c = true ↔
      ∃ d ∈ taken, d.id ≠ c.id ∧ d.identity = c.identity ∧ d.previousId = some c.id := by
  rw [CardRows.names_eq_true]
  constructor
  · rintro ⟨r, hr, hi, hn, hp⟩
    obtain ⟨d, hd, hrd⟩ := h.describes r hr
    exact ⟨d, hd, hrd.id ▸ hn, hrd.identity ▸ hi, hrd.previousId ▸ hp⟩
  · rintro ⟨d, hd, hn, hi, hp⟩
    obtain ⟨r, hr, hrd⟩ := h.row d hd
    exact ⟨r, hr, hrd.identity.trans hi, fun e => hn (hrd.id.symm.trans e), hrd.previousId.trans hp⟩

/-- A row with the id of a card that says the same has the card's identity too. -/
theorem identity_eq (h : Recorded t taken) (hd : Card.Distinct (taken ++ [c])) {r : CardRow}
    (hr : r ∈ t.rows) (hid : r.id = c.id) : r.identity = c.identity := by
  obtain ⟨d, hmem, hrd⟩ := h.describes r hr
  have hdc := hd d (by simp [hmem]) c (by simp) (hrd.id.symm.trans hid)
  exact hrd.identity.trans hdc.identity

/-- The mark that a card is written with is the one that the law asks for. -/
theorem mark_iff (h : Recorded t taken) (hd : Card.Distinct (taken ++ [c])) :
    t.mark c = true ↔ Superseded (taken ++ [c]) c.id c.identity := by
  have known : (t.find? c.id).any (·.outdated) = true →
      Superseded taken c.id c.identity := by
    intro ho
    obtain ⟨r, hf, ho⟩ := (Option.any_eq_true _ _).1 ho
    obtain ⟨hr, hid⟩ := Table.find?_eq_some_iff.1 hf
    have := (h.marked r hr).1 ho
    rwa [hid, h.identity_eq hd hr hid] at this
  have carried : (∃ d ∈ taken, d.id = c.id ∧ d.outdated = true) →
      (t.find? c.id).any (·.outdated) = true := by
    rintro ⟨d, hmem, hid, ho⟩
    obtain ⟨r, hr, hrd⟩ := h.row d hmem
    have hrc := hrd.id.trans hid
    have : r.outdated = true := (h.marked r hr).2 (.inl ⟨d, hmem, hrd.id.symm, ho⟩)
    rw [Table.find?_eq_some_iff.2 ⟨hr, hrc⟩]
    exact this
  rw [superseded_snoc, CardRows.mark, Bool.or_eq_true, Bool.or_eq_true]
  constructor
  · rintro ((ho | ho) | hn)
    · exact .inr (.inl ⟨rfl, ho⟩)
    · exact .inl (known ho)
    · exact .inl (.inr ((h.names_iff c).1 hn))
  · rintro ((ho | hn) | ⟨-, ho⟩ | ⟨hne, -⟩)
    · exact .inl (.inr (carried ho))
    · exact .inr ((h.names_iff c).2 hn)
    · exact .inl (.inl ho)
    · exact absurd rfl hne

/-- One more card that is taken keeps the law of marks. -/
theorem adopt (h : Recorded t taken) (hd : Card.Distinct (taken ++ [c]))
    (hc : t.refusal c = none) : Recorded (t.adopt c) (taken ++ [c]) where
  row := by
    intro d hmem
    -- a card that was taken before has its row still, unless it has the id of the new one
    by_cases hid : d.id = c.id
    · have hdc := hd d hmem c (by simp) hid
      refine ⟨_, CardRows.mem_adopt.2 (.inl rfl), ?_⟩
      exact ⟨hid.symm, hdc.identity.symm, hdc.createdAt.symm, hdc.previousId.symm⟩
    · have hmem : d ∈ taken := by
        rcases List.mem_append.1 hmem with hmem | hmem
        · exact hmem
        · exact absurd (congrArg Card.id (List.mem_singleton.1 hmem)) hid
      obtain ⟨r, hr, hrd⟩ := h.row d hmem
      exact ⟨_, CardRows.mem_adopt.2 (.inr ⟨r, hr, fun e => hid (hrd.id.symm.trans e), rfl⟩),
        hrd.facing c⟩
  card := by
    intro r hr
    rcases CardRows.mem_adopt.1 hr with rfl | ⟨p, hp, -, rfl⟩
    · exact ⟨c, by simp, rfl⟩
    · obtain ⟨d, hmem, hpd⟩ := h.card p hp
      exact ⟨d, by simp [hmem], hpd.facing c⟩
  marked := by
    intro r hr
    rcases CardRows.mem_adopt.1 hr with rfl | ⟨p, hp, hne, rfl⟩
    · exact h.mark_iff hd
    · rw [CardRow.facing_outdated, h.marked p hp, superseded_snoc, CardRow.facing_id,
        CardRow.facing_identity]
      constructor
      · rintro (hs | hn)
        · exact .inl hs
        · -- the predecessor was not refused, so it belongs to the card's identity
          have hpc := CardRows.refusal_eq_none.1 hc p (CardRows.predecessor?_eq_some.2 ⟨hn, hp⟩)
          exact .inr (.inr ⟨Ne.symm hne, hpc.1.symm, hn⟩)
      · rintro (hs | ⟨hid, -⟩ | ⟨-, -, hn⟩)
        · exact .inl hs
        · exact absurd hid.symm hne
        · exact .inr hn

/-- The cached ids are those of the cards that were taken. -/
theorem has_iff (h : Recorded t taken) (id : String) :
    t.has id = true ↔ ∃ c ∈ taken, c.id = id := by
  rw [Table.has_eq_true_iff]
  constructor
  · rintro ⟨r, hr, rfl⟩
    obtain ⟨c, hc, hrc⟩ := h.describes r hr
    exact ⟨c, hc, hrc.id.symm⟩
  · rintro ⟨c, hc, rfl⟩
    obtain ⟨r, hr, hrc⟩ := h.row c hc
    exact ⟨r, hr, hrc.id⟩

/-- Who names a card, said of the rows instead of the cards. -/
theorem superseded_iff (h : Recorded t taken) (id identity : String) :
    Superseded taken id identity ↔
      (∃ c ∈ taken, c.id = id ∧ c.outdated = true) ∨
        ∃ r ∈ t.rows, r.id ≠ id ∧ r.identity = identity ∧ r.previousId = some id := by
  refine or_congr_right ?_
  constructor
  · rintro ⟨c, hc, hn, hi, hp⟩
    obtain ⟨r, hr, hrc⟩ := h.row c hc
    exact ⟨r, hr, hrc.id ▸ hn, hrc.identity.trans hi, hrc.previousId.trans hp⟩
  · rintro ⟨r, hr, hn, hi, hp⟩
    obtain ⟨c, hc, hrc⟩ := h.describes r hr
    exact ⟨c, hc, hrc.id ▸ hn, hrc.identity ▸ hi, hrc.previousId ▸ hp⟩

/-- A marked card stays marked when more cards are taken. -/
theorem marked_mono {u : CardRows} {more : List Card} (h : Recorded t taken) (hu : Recorded u more)
    (hsub : taken ⊆ more) {id : String} (hm : t.mark? id = some true) :
    u.mark? id = some true := by
  obtain ⟨r, hf, ho⟩ := Option.map_eq_some_iff.1 hm
  obtain ⟨hr, rfl⟩ := Table.find?_eq_some_iff.1 hf
  obtain ⟨c, hc, hrc⟩ := h.describes r hr
  obtain ⟨q, hq, hqc⟩ := hu.row c (hsub hc)
  have hs : Superseded more q.id q.identity := by
    rw [hqc.id, hqc.identity, ← hrc.id, ← hrc.identity]
    exact ((h.marked r hr).1 ho).mono hsub
  refine Option.map_eq_some_iff.2 ⟨q, ?_, (hu.marked q hq).2 hs⟩
  exact Table.find?_eq_some_iff.2 ⟨hq, hqc.id.trans hrc.id.symm⟩

/-- Which cards were taken settles ids and marks; their order does not matter. -/
theorem mark?_eq {u : CardRows} {others : List Card} (h : Recorded t taken)
    (hu : Recorded u others) (hsame : ∀ c, c ∈ taken ↔ c ∈ others) (id : String) :
    t.mark? id = u.mark? id := by
  have sub : taken ⊆ others := fun c hc => (hsame c).1 hc
  have bus : others ⊆ taken := fun c hc => (hsame c).2 hc
  have cached : t.mark? id = none ↔ u.mark? id = none := by
    simp only [CardRows.mark?, Option.map_eq_none_iff, ← Table.has_eq_false_iff,
      ← Bool.not_eq_true, h.has_iff, hu.has_iff, hsame]
  have marked : t.mark? id = some true ↔ u.mark? id = some true :=
    ⟨h.marked_mono hu sub, hu.marked_mono h bus⟩
  revert cached marked
  cases t.mark? id with
  | none => intro c _; exact (c.1 rfl).symm
  | some b => cases b with
    | true => intro _ m; exact (m.1 rfl).symm
    | false =>
      cases u.mark? id with
      | none => intro c _; cases c.2 rfl
      | some b => cases b with
        | true => intro _ m; cases m.2 rfl
        | false => intro _ _; rfl

end Recorded

/-! ## Runs -/

namespace CacheRun

/-- A cache that fails no call and whose rows obey the law. -/
structure Lawful (s : CacheRun) : Prop where
  reliable : s.cache.Reliable
  recorded : Recorded s.cache.rows s.taken

theorem lawful_empty (policy : DuplicatePolicy) : Lawful ⟨.empty policy, []⟩ :=
  ⟨CardCache.reliable_empty policy, Recorded.empty⟩

theorem takenFrom_sublist (k : CardCache) (cs : List Card) : (takenFrom k cs).Sublist cs := by
  induction cs generalizing k with
  | nil => exact List.Sublist.slnil
  | cons c cs ih =>
    unfold takenFrom
    split
    · exact (ih _).cons_cons c
    · exact List.nil_sublist _

section Holds

/-! What each card that is taken keeps, every run keeps: `holds_each`, `holds_step` and `holds_foldl`
are for any property of the rows and of the cards that were taken. -/

/-- A cache that fails no call, and a property of its rows and of the cards that it took. -/
structure Holds (P : CardRows → List Card → Prop) (s : CacheRun) : Prop where
  reliable : s.cache.Reliable
  holds : P s.cache.rows s.taken

variable {P : CardRows → List Card → Prop} {all : List Card}
  (kept : ∀ t taken c, P t taken → taken ++ [c] ⊆ all → t.refusal c = none →
    P (t.adopt c) (taken ++ [c]))

include kept

/-- Storing cards one after the other, up to one that is refused, keeps what each of them keeps. -/
theorem holds_each {k : CardCache} {taken cs : List Card} (h : Holds P ⟨k, taken⟩)
    (hall : taken ++ cs ⊆ all) :
    Holds P ⟨(Action.each CardCache.store cs k).2, taken ++ takenFrom k cs⟩ := by
  induction cs generalizing k taken with
  | nil => simpa [takenFrom] using h
  | cons c cs ih =>
    rw [Action.each_cons, Action.bind_run]
    unfold takenFrom
    rw [CardCache.store_run h.reliable]
    cases hc : k.rows.refusal c with
    | some e => simpa using h
    | none =>
      have hsub : taken ++ [c] ⊆ all := List.Subset.trans (by simp) hall
      have hnext : Holds P ⟨{ k with rows := k.rows.adopt c }, taken ++ [c]⟩ :=
        ⟨h.reliable.withRows _, kept _ _ _ h.holds hsub hc⟩
      have := ih hnext (by rwa [List.append_assoc])
      rwa [List.append_assoc] at this

theorem holds_step (hempty : P .empty []) {s : CacheRun} {x : CacheStep} (h : s.Holds P)
    (hall : s.taken ++ x.cards ⊆ all) : (s.step x).Holds P := by
  cases x with
  | store c =>
    have hall : s.taken ++ [c] ⊆ all := hall
    have hnext := holds_each kept h hall
    rwa [Action.each_singleton] at hnext
  | storeChain c =>
    refine holds_each kept h (List.Subset.trans ?_ hall)
    simp [CacheStep.cards]
  | reset => exact ⟨h.reliable.withRows _, hempty⟩

end Holds

/-- The cards that a step lets the cache take are among those that it brings. -/
theorem mem_taken_step {s : CacheRun} {x : CacheStep} {c : Card} (h : c ∈ (s.step x).taken) :
    c ∈ s.taken ∨ c ∈ x.cards := by
  cases x with
  | store d => exact (List.mem_append.1 h).imp_right fun h => (takenFrom_sublist _ _).subset h
  | storeChain d =>
    refine (List.mem_append.1 h).imp_right fun h => ?_
    exact List.mem_reverse.1 ((takenFrom_sublist _ _).subset h)
  | reset => cases h

/-- Only a reset makes a cache forget that it took a card. -/
theorem taken_subset_step {s : CacheRun} {x : CacheStep} (hx : x ≠ .reset) :
    s.taken ⊆ (s.step x).taken := by
  cases x with
  | store d => exact List.subset_append_left _ _
  | storeChain d => exact List.subset_append_left _ _
  | reset => exact absurd rfl hx

theorem holds_foldl {P : CardRows → List Card → Prop} {all : List Card}
    (kept : ∀ t taken c, P t taken → taken ++ [c] ⊆ all → t.refusal c = none →
      P (t.adopt c) (taken ++ [c]))
    (hempty : P .empty []) {s : CacheRun} {steps : List CacheStep} (h : s.Holds P)
    (hall : s.taken ++ steps.flatMap CacheStep.cards ⊆ all) :
    (steps.foldl step s).Holds P ∧
      (steps.foldl step s).taken ⊆ s.taken ++ steps.flatMap CacheStep.cards := by
  induction steps generalizing s with
  | nil => exact ⟨h, by simp⟩
  | cons x xs ih =>
    rw [List.flatMap_cons] at hall ⊢
    have hsub : (s.step x).taken ++ xs.flatMap CacheStep.cards ⊆
        s.taken ++ (x.cards ++ xs.flatMap CacheStep.cards) := by
      intro c hc
      rcases List.mem_append.1 hc with hc | hc
      · rcases mem_taken_step hc with hc | hc <;> simp [hc]
      · simp [hc]
    have hstep : (s.step x).Holds P := by
      refine holds_step kept hempty h (List.Subset.trans (fun c hc => ?_) hall)
      rcases List.mem_append.1 hc with hc | hc <;> simp [hc]
    obtain ⟨hl, ht⟩ := ih hstep (List.Subset.trans hsub hall)
    exact ⟨hl, List.Subset.trans ht hsub⟩

/-- What the empty cache has and each card that is taken keeps, every run from it has. -/
theorem holds_ofSteps {P : CardRows → List Card → Prop} {policy : DuplicatePolicy}
    {steps : List CacheStep} (hempty : P .empty [])
    (kept : ∀ t taken c, P t taken → taken ++ [c] ⊆ steps.flatMap CacheStep.cards →
      t.refusal c = none → P (t.adopt c) (taken ++ [c])) :
    P (ofSteps policy steps).cache.rows (ofSteps policy steps).taken := by
  have hstart : Holds P ⟨.empty policy, []⟩ := ⟨CardCache.reliable_empty policy, hempty⟩
  exact (holds_foldl kept hempty hstart (by simp)).1.holds

theorem lawful_step {s : CacheRun} {x : CacheStep} (h : s.Lawful)
    (hd : Card.Distinct (s.taken ++ x.cards)) : (s.step x).Lawful := by
  have hnext := holds_step (fun t taken c ht hsub hc => Recorded.adopt ht (hd.mono hsub) hc)
    Recorded.empty (⟨h.reliable, h.recorded⟩ : s.Holds Recorded) (List.Subset.refl _)
  exact ⟨hnext.reliable, hnext.holds⟩

/-- Every run keeps the law, and takes only cards that it was brought. -/
theorem lawful_foldl {s : CacheRun} {steps : List CacheStep} (h : s.Lawful)
    (hd : Card.Distinct (s.taken ++ steps.flatMap CacheStep.cards)) :
    (steps.foldl step s).Lawful ∧
      (steps.foldl step s).taken ⊆ s.taken ++ steps.flatMap CacheStep.cards := by
  obtain ⟨hnext, hsub⟩ := holds_foldl
    (fun t taken c ht hsub hc => Recorded.adopt ht (hd.mono hsub) hc) Recorded.empty
    (⟨h.reliable, h.recorded⟩ : s.Holds Recorded) (List.Subset.refl _)
  exact ⟨⟨hnext.reliable, hnext.holds⟩, hsub⟩

/-- The steps bring genuine cards, of which those with different snapshots have different ids. -/
structure Fair (S : CipherSuite) (steps : List CacheStep) : Prop where
  genuine : ∀ c ∈ steps.flatMap CacheStep.cards, c.Genuine S
  distinct : ∀ c ∈ steps.flatMap CacheStep.cards, ∀ d ∈ steps.flatMap CacheStep.cards,
    c.id = d.id → c.raw.snapshot = d.raw.snapshot

variable {S : CipherSuite} {policy : DuplicatePolicy} {steps : List CacheStep}

theorem Fair.cards_distinct (h : Fair S steps) :
    Card.Distinct (steps.flatMap CacheStep.cards) :=
  fun c hc d hd hid => (h.genuine c hc).alike (h.genuine d hd) (h.distinct c hc d hd hid)

theorem lawful_ofSteps (h : Fair S steps) : (ofSteps policy steps).Lawful :=
  (lawful_foldl (lawful_empty policy) (by simpa using h.cards_distinct)).1

theorem ofSteps_snoc (x : CacheStep) :
    ofSteps policy (steps ++ [x]) = (ofSteps policy steps).step x := by
  simp [ofSteps]

/-- Storing a card that was taken before lets the cache take nothing new. -/
theorem mem_taken_again {s : CacheRun} {c d : Card} (hc : c ∈ s.taken) :
    d ∈ (s.step (.store c)).taken ↔ d ∈ s.taken := by
  constructor
  · intro h
    rcases mem_taken_step h with h | h
    · exact h
    · rwa [List.mem_singleton.1 h]
  · exact fun h => taken_subset_step (by simp) h

theorem lawful_again (h : Fair S steps) {c : Card} (hc : c ∈ (ofSteps policy steps).taken) :
    ((ofSteps policy steps).step (.store c)).Lawful := by
  have hl := lawful_foldl (lawful_empty policy) (by simpa using h.cards_distinct)
  refine lawful_step hl.1 (h.cards_distinct.mono fun d hd => ?_)
  have hsub := hl.2
  rw [List.nil_append] at hsub
  rcases List.mem_append.1 hd with hd | hd
  · exact hsub hd
  · rw [List.mem_singleton.1 hd]
    exact hsub hc

/-- The state of a card cache after any run: which ids it holds, which cards are marked, which are
current, and that neither the order of the cards nor repeats matter and no mark is taken back. -/
theorem rows_of_run (h : Fair S steps) :
    let s := ofSteps policy steps
    (∀ id, s.cache.rows.has id = true ↔ ∃ c ∈ s.taken, c.id = id) ∧
    (∀ r ∈ s.cache.rows.rows, ∃ c ∈ s.taken, r.Holds c) ∧
    (∀ r ∈ s.cache.rows.rows, r.outdated = true ↔
      (∃ c ∈ s.taken, c.id = r.id ∧ c.outdated = true) ∨
        ∃ q ∈ s.cache.rows.rows, q.id ≠ r.id ∧ q.identity = r.identity ∧
          q.previousId = some r.id) ∧
    (∃ ids, CardCache.currentIds s.cache = (.ok ids, s.cache) ∧ ids.Pairwise (· < ·) ∧
      ∀ id, id ∈ ids ↔ ∃ r ∈ s.cache.rows.rows, r.id = id ∧ r.outdated = false) ∧
    (∀ others, Fair S others → (∀ c, c ∈ s.taken ↔ c ∈ (ofSteps policy others).taken) →
      ∀ id, s.cache.rows.mark? id = (ofSteps policy others).cache.rows.mark? id) ∧
    (∀ c ∈ s.taken, ∀ id, (s.step (.store c)).cache.rows.mark? id = s.cache.rows.mark? id) ∧
    (∀ x, x ≠ .reset → Fair S (steps ++ [x]) → ∀ id, s.cache.rows.mark? id = some true →
      (s.step x).cache.rows.mark? id = some true) := by
  intro s
  have hs : s.Lawful := lawful_ofSteps h
  refine ⟨hs.recorded.has_iff, hs.recorded.card, ?_, ?_, ?_, ?_, ?_⟩
  · intro r hr
    rw [hs.recorded.marked r hr, hs.recorded.superseded_iff]
  · exact ⟨_, CardCache.currentIds_run hs.reliable, CardRows.pairwise_currentIds _,
      fun id => CardRows.mem_currentIds⟩
  · intro others ho hsame id
    exact hs.recorded.mark?_eq (lawful_ofSteps ho).recorded hsame id
  · intro c hc id
    exact (lawful_again h hc).recorded.mark?_eq hs.recorded (fun d => mem_taken_again hc) id
  · intro x hx hf id hm
    have hnext : (ofSteps policy (steps ++ [x])).Lawful := lawful_ofSteps hf
    rw [ofSteps_snoc] at hnext
    exact hs.recorded.marked_mono hnext.recorded (taken_subset_step hx) hm

/-- Two genuine cards with different ids may be stored in any order. -/
theorem fair_of_pair {first second : Card} (hf : first.Genuine S) (hs : second.Genuine S)
    (hids : first.id ≠ second.id)
    (hcards : ∀ c ∈ steps.flatMap CacheStep.cards, c = first ∨ c = second) : Fair S steps := by
  constructor
  · intro c hc
    rcases hcards c hc with rfl | rfl
    · exact hf
    · exact hs
  · intro c hc d hd hid
    rcases hcards c hc with rfl | rfl <;> rcases hcards d hd with rfl | rfl
    · rfl
    · exact absurd hid hids
    · exact absurd hid.symm hids
    · rfl

/-- A card of one user, signed with a suite that hides nothing. -/
def cardOfAlice (createdAt : Timestamp) (previousId : Option String) : Card :=
  let key : KeyPair := ⟨.zero 32, .zero 32⟩
  .signed .transparent key
    ⟨CardContent.currentVersion, "alice", key.publicKey .transparent, createdAt, previousId⟩

theorem genuine_cardOfAlice (createdAt : Timestamp) (previousId : Option String) :
    (cardOfAlice createdAt previousId).Genuine .transparent :=
  Card.genuine_signed CipherSuite.transparent_accepts rfl

theorem id_cardOfAlice_ne :
    (cardOfAlice 1 none).id ≠ (cardOfAlice 2 (some (cardOfAlice 1 none).id)).id := by
  decide +kernel

/-- A user's first card, and one that replaces it. -/
theorem exists_replacement : ∃ first second : Card,
    first.Genuine .transparent ∧ second.Genuine .transparent ∧ first.id ≠ second.id ∧
      second.previousId = some first.id :=
  ⟨cardOfAlice 1 none, cardOfAlice 2 (some (cardOfAlice 1 none).id), genuine_cardOfAlice _ _,
    genuine_cardOfAlice _ _, id_cardOfAlice_ne, rfl⟩

/-- A card is stored before the one that it replaces, and then again with it. -/
theorem rows_of_late_predecessor : ∃ first second : Card, ∃ steps : List CacheStep,
    steps = [.store second, .store first, .storeChain ⟨second, [first]⟩] ∧
      second.previousId = some first.id ∧ Fair .transparent steps ∧
      let s := ofSteps .reject steps
      (∀ id, s.cache.rows.has id = true ↔ ∃ c ∈ s.taken, c.id = id) ∧
      (∀ r ∈ s.cache.rows.rows, r.outdated = true ↔
        (∃ c ∈ s.taken, c.id = r.id ∧ c.outdated = true) ∨
          ∃ q ∈ s.cache.rows.rows, q.id ≠ r.id ∧ q.identity = r.identity ∧
            q.previousId = some r.id) ∧
      ∃ ids, CardCache.currentIds s.cache = (.ok ids, s.cache) ∧ ids.Pairwise (· < ·) := by
  obtain ⟨first, second, hf, hs, hids, hprevious⟩ := exists_replacement
  have hfair : Fair .transparent [.store second, .store first, .storeChain ⟨second, [first]⟩] :=
    fair_of_pair hf hs hids (by simp [CacheStep.cards, CardChain.cards])
  obtain ⟨hhas, -, hmarked, ⟨ids, hcurrent, hordered, -⟩, -⟩ := @rows_of_run _ .reject _ hfair
  exact ⟨first, second, _, rfl, hprevious, hfair, hhas, hmarked, ids, hcurrent, hordered⟩

end CacheRun

end EndToEnd
