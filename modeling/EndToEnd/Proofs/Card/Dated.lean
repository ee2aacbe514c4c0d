/-
  The card of a chain that was current at a time.

  In a chain each card is older than the one before it. The walk back to a time therefore ends at the
  newest card that was there by then, or at the oldest one. `Continues` says that a chain came to be by
  replacing the head of another one, any number of times. Whether the walk still ends at that head is
  settled by its time and by those of the cards that replaced it (`Continues.cardAt_iff`).

  Proved:
  * `walkTo_eq_find?`: the walk ends at the first card that is not later than the time, or at the last.
  * `walkTo_mono`: the walk to a later time does not end at an older card.
  * `cardAt_eq_iff`: each card of a chain is the one to take from its own time on until the next newer
    one's, and the oldest one from ever.
  * `Continues.cardAt_iff`: when the head of a chain that was replaced is still the one to take.
-/
import EndToEnd.Proofs.Card.Genuine

namespace EndToEnd.CardChain

variable {chain chain' : CardChain} {asOf since : Timestamp}

/-- Each card is older than those before it, and cards with one id are one card. -/
structure Falling (chain : CardChain) : Prop where
  older : chain.cards.Pairwise fun c d => d.createdAt < c.createdAt
  distinct : ∀ c ∈ chain.cards, ∀ d ∈ chain.cards, c.id = d.id → c = d

theorem walkTo_mem (asOf : Timestamp) (c : Card) (cs : List Card) : walkTo asOf c cs ∈ c :: cs := by
  induction cs generalizing c with
  | nil => exact List.mem_cons_self
  | cons p ps ih =>
    rw [walkTo]
    split
    · exact List.mem_cons_self
    · exact List.mem_cons_of_mem _ (ih p)

/-- The walk ends at a card if all cards before it are later than the time and it is not, or if it is
the last one. -/
theorem walkTo_eq_iff {newer older : List Card} {x : Card} :
    ∀ {c : Card} {cs : List Card}, c :: cs = newer ++ x :: older →
      (c :: cs).Pairwise (fun c d => d.createdAt < c.createdAt) →
      (walkTo asOf c cs = x ↔
        (x.createdAt ≤ asOf ∨ older = []) ∧ ∀ c ∈ newer, asOf < c.createdAt) := by
  induction newer with
  | nil =>
    intro c cs h hfall
    obtain ⟨rfl, rfl⟩ := List.cons.inj h
    cases cs with
    | nil => simp [walkTo]
    | cons p ps =>
      rw [walkTo]
      split
      · rename_i hle
        simp [hle]
      · rename_i hle
        -- the walk goes on to cards that are older
        have holder := (List.pairwise_cons.1 hfall).1 _ (walkTo_mem asOf p ps)
        have hne : walkTo asOf p ps ≠ c := fun heq => Int64.lt_irrefl (heq ▸ holder)
        simp [hle, hne]
  | cons n newer ih =>
    intro c cs h hfall
    obtain ⟨rfl, rfl⟩ := List.cons.inj h
    obtain ⟨hn, hothers⟩ := List.pairwise_cons.1 hfall
    have hx : x ∈ newer ++ x :: older := List.mem_append_right _ List.mem_cons_self
    obtain ⟨p, ps, hps⟩ : ∃ p ps, newer ++ x :: older = p :: ps :=
      List.exists_cons_of_ne_nil (List.ne_nil_of_mem hx)
    rw [List.append_eq, hps] at hothers ⊢
    rw [walkTo]
    split
    · rename_i hle
      have hne : c ≠ x := fun heq => Int64.lt_irrefl (heq ▸ hn x hx)
      simp [hne, Int64.not_lt.2 hle]
    · rename_i hle
      rw [ih hps.symm hothers]
      simp [Int64.not_le.1 hle]

/-- The walk ends at the first card that is not later than the time, or at the last one. It tests that
card only to find that it cannot go on, so the last one needs no test. -/
theorem walkTo_eq_find? (asOf : Timestamp) (c : Card) (cs : List Card) :
    walkTo asOf c cs =
      ((c :: cs).find? fun d => decide (d.createdAt ≤ asOf)).getD (cs.getLastD c) := by
  induction cs generalizing c with
  | nil =>
    rw [walkTo, List.find?_cons]
    split <;> rfl
  | cons p ps ih =>
    rw [walkTo, List.find?_cons, List.getLastD_cons]
    split
    · rename_i hle
      rw [decide_eq_true hle]
      rfl
    · rename_i hle
      rw [decide_eq_false hle]
      exact ih p

/-- In a falling chain the walk to a later time does not end at an older card. -/
theorem walkTo_mono {asOf asOf' : Timestamp} (hle : asOf ≤ asOf') {c : Card} {cs : List Card}
    (hfall : (c :: cs).Pairwise fun c d => d.createdAt < c.createdAt) :
    (walkTo asOf c cs).createdAt ≤ (walkTo asOf' c cs).createdAt := by
  induction cs generalizing c with
  | nil => exact Int64.le_refl _
  | cons p ps ih =>
    obtain ⟨holder, hrest⟩ := List.pairwise_cons.1 hfall
    rw [walkTo, walkTo]
    by_cases hnow : c.createdAt ≤ asOf
    · rw [if_pos hnow, if_pos (Int64.le_trans hnow hle)]
      exact Int64.le_refl _
    · rw [if_neg hnow]
      split
      · exact Int64.le_of_lt (holder _ (walkTo_mem asOf p ps))
      · exact ih hrest

/-- A time at which the card between the newer ones and the older ones is the one to take: not before
the card, unless it is the oldest, and before the next newer one. -/
structure InForce (newer : List Card) (c : Card) (older : List Card) (asOf : Timestamp) : Prop where
  since : older ≠ [] → c.createdAt ≤ asOf
  before : ∀ next ∈ newer.getLast?, asOf < next.createdAt

/-- All of the newer cards are later than a time if the last of them is. -/
theorem forall_newer_iff {newer : List Card}
    (hfall : newer.Pairwise fun c d => d.createdAt < c.createdAt) :
    (∀ c ∈ newer, asOf < c.createdAt) ↔ ∀ next ∈ newer.getLast?, asOf < next.createdAt := by
  constructor
  · intro h next hnext
    exact h next (List.mem_of_getLast? hnext)
  · intro h c hc
    have hne : newer ≠ [] := List.ne_nil_of_mem hc
    have hlast := h _ (List.getLast?_eq_some_getLast hne)
    rw [← List.dropLast_concat_getLast hne] at hc hfall
    rcases List.mem_append.1 hc with hc | hc
    · have hlt := (List.pairwise_append.1 hfall).2.2 c hc _ List.mem_cons_self
      exact Int64.lt_trans hlast hlt
    · rwa [List.mem_singleton.1 hc]

/-- The card for a time is the one that is in force then. -/
theorem cardAt_eq_iff {newer older : List Card} {c : Card} (h : chain.cards = newer ++ c :: older)
    (hfall : chain.cards.Pairwise fun c d => d.createdAt < c.createdAt) :
    chain.cardAt asOf = c ↔ InForce newer c older asOf := by
  have hnewer : newer.Pairwise fun c d => d.createdAt < c.createdAt := by
    rw [h] at hfall
    exact (List.pairwise_append.1 hfall).1
  rw [cardAt, walkTo_eq_iff h hfall, forall_newer_iff hnewer]
  constructor
  · rintro ⟨hwas | hfirst, hbefore⟩
    · exact ⟨fun _ => hwas, hbefore⟩
    · exact ⟨fun hne => absurd hfirst hne, hbefore⟩
  · intro hforce
    refine ⟨?_, hforce.before⟩
    by_cases hfirst : older = []
    · exact .inr hfirst
    · exact .inl (hforce.since hfirst)

/-- The chain came to be by replacing the head of the other one, any number of times, with cards that
are not from before a time. -/
def Continues (since : Timestamp) (chain chain' : CardChain) : Prop :=
  ∃ newer outdated, chain'.cards = newer ++ chain.head.marked outdated :: chain.ancestors ∧
    ∀ c ∈ newer, since ≤ c.createdAt

namespace Continues

theorem refl (since : Timestamp) (chain : CardChain) : Continues since chain chain :=
  ⟨[], chain.head.outdated, rfl, fun _ hc => absurd hc List.not_mem_nil⟩

/-- Another card takes the place of the head. -/
theorem extend (h : Continues since chain chain') {c : Card} (hc : since ≤ c.createdAt) :
    Continues since chain (.extend c chain'.outdate) := by
  obtain ⟨newer, outdated, hcards, hnewer⟩ := h
  cases newer with
  | nil =>
    obtain ⟨hhead, hancestors⟩ := List.cons.inj hcards
    refine ⟨[c], true, ?_, fun d hd => ?_⟩
    · show [c] ++ chain'.head.marked true :: chain'.ancestors = _
      rw [hhead, hancestors]
      rfl
    · rwa [List.mem_singleton.1 hd]
  | cons n newer =>
    obtain ⟨hhead, hancestors⟩ := List.cons.inj hcards
    refine ⟨c :: n.marked true :: newer, outdated, ?_, fun d hd => ?_⟩
    · show c :: chain'.head.marked true :: chain'.ancestors = _
      rw [hhead, hancestors]
      rfl
    · rcases List.mem_cons.1 hd with rfl | hd
      · exact hc
      rcases List.mem_cons.1 hd with rfl | hd
      · exact hnewer n List.mem_cons_self
      · exact hnewer d (List.mem_cons_of_mem _ hd)

/-- The head of the older chain is still there, perhaps with another mark, and no other card has its
id. -/
theorem eq_head (hfall : chain'.Falling) {newer older : List Card} {outdated : Bool}
    (hcards : chain'.cards = newer ++ chain.head.marked outdated :: older) :
    ∀ c ∈ chain'.cards, c.id = chain.head.id → c = chain.head.marked outdated := by
  intro c hc hid
  refine hfall.distinct c hc _ ?_ hid
  rw [hcards]
  exact List.mem_append_right _ List.mem_cons_self

/-- The card for a time is still the head of the older chain if that is not from later, unless it was
the first card, and if no card that replaced it is from that very time. -/
theorem cardAt_iff (h : Continues asOf chain chain') (hfall : chain'.Falling) :
    (chain'.cardAt asOf).id = chain.head.id ↔
      (chain.head.createdAt ≤ asOf ∨ chain.ancestors = []) ∧
        ∀ c ∈ chain'.cards, c.createdAt = asOf → c.id = chain.head.id := by
  obtain ⟨newer, outdated, hcards, hnewer⟩ := h
  have hhead := eq_head hfall hcards
  have hid : (chain'.cardAt asOf).id = chain.head.id ↔
      chain'.cardAt asOf = chain.head.marked outdated :=
    ⟨hhead _ (walkTo_mem _ _ _), fun heq => by rw [heq]; rfl⟩
  rw [hid, cardAt, walkTo_eq_iff hcards hfall.older, Card.marked_createdAt]
  have holder := hfall.older
  rw [hcards, List.pairwise_append, List.pairwise_cons] at holder
  obtain ⟨-, ⟨hafter, -⟩, hbefore⟩ := holder
  refine and_congr_right fun hwas => ⟨fun hlater c hc htime => ?_, fun hsame c hc => ?_⟩
  · rw [hcards, List.mem_append, List.mem_cons] at hc
    rcases hc with hc | rfl | hc
    · exact absurd (htime ▸ hlater c hc) Int64.lt_irrefl
    · rfl
    · rcases hwas with hle | hnil
      · have hlt := hafter c hc
        rw [htime] at hlt
        exact absurd hle (Int64.not_le.2 hlt)
      · rw [hnil] at hc
        cases hc
  · refine Int64.lt_of_le_of_ne (hnewer c hc) fun htime => ?_
    have hmem : c ∈ chain'.cards := by
      rw [hcards]
      exact List.mem_append_left _ hc
    have hlt := hbefore c hc _ List.mem_cons_self
    rw [hhead c hmem (hsame c hmem htime.symm)] at hlt
    exact Int64.lt_irrefl hlt

/-- A card with the id of the head has its key. -/
theorem publicKey_eq (h : Continues since chain chain') (hfall : chain'.Falling) {c : Card}
    (hc : c ∈ chain'.cards) (hid : c.id = chain.head.id) : c.publicKey = chain.head.publicKey := by
  obtain ⟨newer, outdated, hcards, -⟩ := h
  rw [eq_head hfall hcards c hc hid]
  rfl

end Continues

end EndToEnd.CardChain
