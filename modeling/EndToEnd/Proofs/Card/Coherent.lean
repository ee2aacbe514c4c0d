/-
  Caches that agree with a directory.

  A cache is coherent with the listings of a directory if each of its rows is the row of a listed
  card, and carries the mark of a replaced card only where the directory no longer serves the card as
  current. It may miss cards, and it may miss marks. Storing listed cards is never refused, keeps
  coherence, and leaves no card current that was neither current before nor stored as current.
-/
import EndToEnd.Proofs.Card.Store
import EndToEnd.Proofs.Directory.Chain

namespace EndToEnd

variable {S : CipherSuite} {t t' : Listings} {c d : Card}

namespace Listings

/-- The card is listed. Its mark may be missing, but it is not made up. -/
def Lists (t : Listings) (c : Card) : Prop :=
  ∃ l ∈ t.rows, c = l.card.marked c.outdated ∧ (c.outdated = true → l.isCurrent = false)

theorem lists_of_mem {l : Listing} (hl : l ∈ t.rows) : t.Lists l.card :=
  ⟨l, hl, rfl, Listing.isCurrent_of_outdated⟩

theorem Lists.genuine (hs : t.Regular S) (h : t.Lists c) : c.Genuine S := by
  obtain ⟨l, hl, hc, -⟩ := h
  rw [hc]
  exact (hs.genuine l hl).marked _

/-- A card that is listed stays so. -/
theorem Lists.mono (h : t.Lists c) (hg : t.Grows t') : t'.Lists c := by
  obtain ⟨l, hl, hc, hm⟩ := h
  obtain ⟨l', hl', hcard, hcur⟩ := hg l hl
  refine ⟨l', hl', ?_, fun ho => hcur (hm ho)⟩
  rw [hcard]
  exact hc

/-- A listed card without mark is current as it is, or its mark is missing. -/
theorem Lists.current_or_withdrawn (h : t.Lists c) (ho : c.outdated = false) :
    (∃ l ∈ t.rows, l.isCurrent = true ∧ l.card = c) ∨
      ∃ l ∈ t.rows, l.id = c.id ∧ l.isCurrent = false := by
  obtain ⟨l, hl, hc, -⟩ := h
  cases hcurrent : l.isCurrent with
  | true =>
    rw [ho, ← (Listing.isCurrent_eq_true.1 hcurrent).2, Card.marked_self] at hc
    exact .inl ⟨l, hl, hcurrent, hc.symm⟩
  | false =>
    refine .inr ⟨l, hl, ?_, hcurrent⟩
    rw [hc]
    rfl

/-- The mark of a card that is no longer served is not made up. -/
theorem Lists.marked (h : t.Lists c) {l : Listing} (hl : l ∈ t.rows) (hid : l.id = c.id)
    (hno : l.isCurrent = false) : t.Lists (c.marked true) := by
  obtain ⟨l', hl', hc, -⟩ := h
  have hsame : l'.id = l.id := by
    rw [hid, hc]
    rfl
  obtain rfl := Table.eq_of_key_eq hl' hl hsame
  refine ⟨l', hl', ?_, fun _ => hno⟩
  rw [hc]
  rfl

/-- The card that a listed card names as predecessor is an older card of its identity, and no longer
current. -/
theorem Regular.of_named (hs : t.Regular S) {l p : Listing} (hl : l ∈ t.rows) (hp : p ∈ t.rows)
    (h : l.card.previousId = some p.id) :
    p.card.identity = l.card.identity ∧ p.card.createdAt < l.card.createdAt ∧
      p.isCurrent = false := by
  obtain ⟨hi, holder, ho⟩ := Ordered.of_named hs.ordered hl hp h
  exact ⟨hi, holder, Listing.isCurrent_of_outdated ho⟩

end Listings

namespace CardRows

variable {rows rows' : CardRows}

/-- Every row is the row of a listed card. -/
def Coherent (rows : CardRows) (t : Listings) : Prop :=
  ∀ r ∈ rows.rows, ∃ c, t.Lists c ∧ r = CardRow.ofCard c

/-- The card is cached, and marked if it carries the mark. -/
def Covers (rows : CardRows) (c : Card) : Prop :=
  ∃ r ∈ rows.rows, r.id = c.id ∧ (c.outdated = true → r.outdated = true)

theorem coherent_empty (t : Listings) : Coherent .empty t := nofun

theorem Coherent.mono (h : rows.Coherent t) (hg : t.Grows t') : rows.Coherent t' := by
  intro r hr
  obtain ⟨c, hc, rfl⟩ := h r hr
  exact ⟨c, hc.mono hg, rfl⟩

/-! ## Storing listed cards -/

/-- The cached predecessor of a listed card is listed too, so the card is not refused for it. -/
theorem Coherent.refusal_eq_none (h : rows.Coherent t) (hs : t.Regular S) (hc : t.Lists c) :
    rows.refusal c = none := by
  rw [CardRows.refusal_eq_none]
  intro p hp
  obtain ⟨hid, hmem⟩ := predecessor?_eq_some.1 hp
  obtain ⟨d, ⟨l', hl', hd, -⟩, rfl⟩ := h p hmem
  obtain ⟨l, hl, hc, -⟩ := hc
  rw [hc, hd] at hid ⊢
  obtain ⟨hi, holder, -⟩ := hs.of_named hl hl' hid
  exact ⟨hi, holder⟩

/-- A card gets the mark only where the directory does not serve it as current. -/
theorem Coherent.of_mark (h : rows.Coherent t) (hs : t.Regular S) {l : Listing} (hl : l ∈ t.rows)
    (hc : c = l.card.marked c.outdated) (hm : c.outdated = true → l.isCurrent = false)
    (hmark : rows.mark c = true) : l.isCurrent = false := by
  have hid : c.id = l.id := by
    rw [hc]
    rfl
  rw [mark, Bool.or_eq_true, Bool.or_eq_true] at hmark
  rcases hmark with (ho | ho) | hn
  · exact hm ho
  · obtain ⟨r, hf, ho⟩ := (Option.any_eq_true _ _).1 ho
    obtain ⟨hr, hrid⟩ := Table.find?_eq_some_iff.1 hf
    obtain ⟨d, ⟨l', hl', hd, hm'⟩, rfl⟩ := h r hr
    have hdl : l'.id = l.id := by
      rw [← hid, ← hrid]
      exact (congrArg Card.id hd).symm
    obtain rfl := Table.eq_of_key_eq hl' hl hdl
    exact hm' ho
  · obtain ⟨r, hr, -, -, hp⟩ := names_eq_true.1 hn
    obtain ⟨d, ⟨l', hl', hd, -⟩, rfl⟩ := h r hr
    rw [CardRow.ofCard_previousId, hd, hid] at hp
    exact (hs.of_named hl' hl hp).2.2

/-- Taking a listed card keeps coherence. -/
theorem Coherent.adopt (h : rows.Coherent t) (hs : t.Regular S) (hc : t.Lists c) :
    (rows.adopt c).Coherent t := by
  obtain ⟨l, hl, hlc, hm⟩ := hc
  intro r hr
  rcases mem_adopt.1 hr with rfl | ⟨p, hp, -, rfl⟩
  · refine ⟨c.marked (rows.mark c), ⟨l, hl, ?_, ?_⟩, rfl⟩
    · rw [hlc]
      rfl
    · exact h.of_mark hs hl hlc hm
  · obtain ⟨d, hd, rfl⟩ := h p hp
    by_cases hnamed : c.previousId = some d.id
    · obtain ⟨l', hl', hd, -⟩ := hd
      refine ⟨d.marked true, ⟨l', hl', ?_, fun _ => ?_⟩, ?_⟩
      · rw [hd]
        rfl
      · rw [hlc, hd] at hnamed
        exact (hs.of_named hl hl' hnamed).2.2
      · exact if_pos hnamed
    · exact ⟨d, hd, if_neg hnamed⟩

/-- Taking a listed card of one identity leaves the rows of all others as they are. -/
theorem Coherent.ofIdentity_adopt (h : rows.Coherent t) (hs : t.Regular S) (hc : t.Lists c)
    {identity : String} (hne : c.identity ≠ identity) :
    (rows.adopt c).ofIdentity identity = rows.ofIdentity identity := by
  have hforeign : ∀ r ∈ rows.rows, r.id = c.id → r.identity ≠ identity := by
    intro r hr hid
    obtain ⟨d, ⟨l', hl', hd, -⟩, rfl⟩ := h r hr
    obtain ⟨l, hl, hcl, -⟩ := hc
    rw [hcl] at hne hid
    rw [CardRow.ofCard_id, hd] at hid
    obtain rfl := Table.eq_of_key_eq hl' hl hid
    rw [CardRow.ofCard_identity, hd]
    exact hne
  have hmarked : (rows.outdatePredecessor c).rows.filter (fun r => r.identity = identity) =
      rows.rows.filter fun r => r.identity = identity := by
    unfold outdatePredecessor
    cases hp : rows.predecessor? c with
    | none => rfl
    | some p =>
      have hrefused := CardRows.refusal_eq_none.1 (h.refusal_eq_none hs hc) p hp
      have hpi : p.identity ≠ identity := hrefused.1 ▸ hne
      dsimp only
      split
      · rfl
      · refine Table.filter_insert (decide_eq_false hpi) fun r hr hid => decide_eq_false ?_
        rwa [Table.eq_of_key_eq hr (predecessor?_eq_some.1 hp).2 hid]
  have hadopted : (rows.adopt c).rows.filter (fun r => r.identity = identity) =
      (rows.outdatePredecessor c).rows.filter fun r => r.identity = identity := by
    refine Table.filter_insert (decide_eq_false hne) fun r hr hid => decide_eq_false ?_
    rcases mem_outdatePredecessor hr with hr | ⟨p, hp, rfl⟩
    · exact hforeign r hr hid
    · exact hforeign p hp hid
  unfold ofIdentity
  rw [hadopted, hmarked]

theorem covers_adopt (rows : CardRows) (c : Card) : (rows.adopt c).Covers c := by
  refine ⟨_, mem_adopt.2 (.inl rfl), rfl, fun ho => ?_⟩
  show rows.mark c = true
  rw [mark, ho, Bool.true_or, Bool.true_or]

/-- Taking a card forgets none, and takes no mark back. -/
theorem Covers.adopt (h : rows.Covers d) (c : Card) : (rows.adopt c).Covers d := by
  obtain ⟨r, hr, hid, hm⟩ := h
  by_cases hrc : r.id = c.id
  · refine ⟨_, mem_adopt.2 (.inl rfl), hrc.symm.trans hid, fun ho => ?_⟩
    show rows.mark c = true
    rw [mark, ← hrc, Table.find?_key hr, Option.any_some, hm ho, Bool.or_true, Bool.true_or]
  · exact ⟨_, mem_adopt.2 (.inr ⟨r, hr, hrc, rfl⟩), (r.facing_id c).trans hid,
      fun ho => (r.facing_outdated c).2 (.inl (hm ho))⟩

/-- A row that is current after a card was taken was current before, or the card came as current. -/
theorem of_current_adopt {r : CardRow} (hr : r ∈ (rows.adopt c).rows) (ho : r.outdated = false) :
    r ∈ rows.rows ∨ (c.outdated = false ∧ r = CardRow.ofCard c) := by
  rcases mem_adopt.1 hr with rfl | ⟨p, hp, -, rfl⟩
  · have hmark : rows.mark c = false := ho
    have hc : c.outdated = false := by
      rw [mark, Bool.or_eq_false_iff, Bool.or_eq_false_iff] at hmark
      exact hmark.1.1
    refine .inr ⟨hc, ?_⟩
    rw [hmark, ← hc]
  · have hnot : c.previousId ≠ some p.id := by
      intro hnamed
      rw [(p.facing_outdated c).2 (.inr hnamed)] at ho
      cases ho
    rw [show p.facing c = p from if_neg hnot]
    exact .inl hp

/-- What storing listed cards makes of coherent rows. -/
structure Stored (t : Listings) (cards : List Card) (rows rows' : CardRows) : Prop where
  coherent : rows'.Coherent t
  covers : ∀ c ∈ cards, rows'.Covers c
  keeps : ∀ c, rows.Covers c → rows'.Covers c
  current : ∀ r ∈ rows'.rows, r.outdated = false →
    r ∈ rows.rows ∨ ∃ c ∈ cards, c.outdated = false ∧ r = CardRow.ofCard c
  others : ∀ identity, (∀ c ∈ cards, c.identity ≠ identity) →
    rows'.ofIdentity identity = rows.ofIdentity identity

namespace Stored

variable {cards more : List Card}

theorem nil (h : rows.Coherent t) : Stored t [] rows rows :=
  ⟨h, nofun, fun _ => id, fun _ hr _ => .inl hr, fun _ _ => rfl⟩

theorem single (h : rows.Coherent t) (hs : t.Regular S) (hc : t.Lists c) :
    Stored t [c] rows (rows.adopt c) where
  coherent := h.adopt hs hc
  covers := by
    intro d hd
    rw [List.mem_singleton.1 hd]
    exact covers_adopt rows c
  keeps := fun _ hd => hd.adopt c
  current := by
    intro r hr ho
    exact (of_current_adopt hr ho).imp_right fun hc => ⟨c, List.mem_singleton.2 rfl, hc⟩
  others := fun _ hne => h.ofIdentity_adopt hs hc (hne c List.mem_cons_self)

theorem append {rows'' : CardRows} (h : Stored t cards rows rows') (h' : Stored t more rows' rows'') :
    Stored t (cards ++ more) rows rows'' where
  coherent := h'.coherent
  covers := by
    intro c hc
    rcases List.mem_append.1 hc with hc | hc
    · exact h'.keeps c (h.covers c hc)
    · exact h'.covers c hc
  keeps := fun c hc => h'.keeps c (h.keeps c hc)
  current := by
    intro r hr ho
    rcases h'.current r hr ho with hr | ⟨c, hc, hrc⟩
    · rcases h.current r hr ho with hr | ⟨c, hc, hrc⟩
      · exact .inl hr
      · exact .inr ⟨c, List.mem_append_left _ hc, hrc⟩
    · exact .inr ⟨c, List.mem_append_right _ hc, hrc⟩
  others := by
    intro identity hne
    rw [h'.others identity fun c hc => hne c (List.mem_append_right _ hc),
      h.others identity fun c hc => hne c (List.mem_append_left _ hc)]

/-- The order of the cards does not matter to what is said. -/
theorem of_mem (h : Stored t cards rows rows') (hsame : ∀ c, c ∈ more ↔ c ∈ cards) :
    Stored t more rows rows' where
  coherent := h.coherent
  covers := fun c hc => h.covers c ((hsame c).1 hc)
  keeps := h.keeps
  current := by
    intro r hr ho
    exact (h.current r hr ho).imp_right fun hnew => hnew.imp fun c hc => ⟨(hsame c).2 hc.1, hc.2⟩
  others := fun identity hne => h.others identity fun c hc => hne c ((hsame c).2 hc)

end Stored

/-- A listed card that is cached with its mark is cached as it is listed. -/
theorem Coherent.find?_listed (h : rows.Coherent t) (hs : t.Regular S) {l : Listing} (hl : l ∈ t.rows)
    (hc : rows.Covers l.card) : rows.find? l.id = some (CardRow.ofCard l.card) := by
  obtain ⟨r, hr, hid, hm⟩ := hc
  obtain ⟨d, ⟨l', hl', hd, hm'⟩, rfl⟩ := h r hr
  have hdl : l'.id = l.id := by
    rw [show l.id = d.id from hid.symm]
    exact (congrArg Card.id hd).symm
  obtain rfl := Table.eq_of_key_eq hl' hl hdl
  have hmark : d.outdated = l'.card.outdated := by
    cases ho : l'.card.outdated with
    | true => exact hm ho
    | false =>
      cases hd' : d.outdated with
      | false => rfl
      | true =>
        have := (hs.isCurrent_iff hl).2 ho
        rw [hm' hd'] at this
        cases this
  rw [hmark, Card.marked_self] at hd
  rw [← hd]
  exact Table.find?_eq_some_iff.2 ⟨hr, hid⟩

end CardRows

namespace CardCache

variable {k : CardCache}

/-- Storing listed cards one after the other refuses none. -/
theorem each_store_run (hk : k.Reliable) (hs : t.Regular S) (h : k.rows.Coherent t) {cards : List Card}
    (hcards : ∀ c ∈ cards, t.Lists c) :
    ∃ rows', Action.each store cards k = (.ok (), { k with rows := rows' }) ∧
      CardRows.Stored t cards k.rows rows' := by
  induction cards generalizing k with
  | nil => exact ⟨k.rows, rfl, .nil h⟩
  | cons c cards ih =>
    have hc := hcards c List.mem_cons_self
    have hstore := store_of_not_refused hk (h.refusal_eq_none hs hc)
    have hfirst := CardRows.Stored.single h hs hc
    have hnext : Reliable { k with rows := k.rows.adopt c } := hk.withRows _
    obtain ⟨rows', hrun, hrest⟩ := ih hnext hfirst.coherent
      fun d hd => hcards d (List.mem_cons_of_mem _ hd)
    refine ⟨rows', ?_, hfirst.append hrest⟩
    rw [Action.each_cons, Action.bind_ok hstore, hrun]

/-- Storing a chain of listed cards. -/
theorem storeChain_run (hk : k.Reliable) (hs : t.Regular S) (h : k.rows.Coherent t) {chain : CardChain}
    (hcards : ∀ c ∈ chain.cards, t.Lists c) :
    ∃ rows', storeChain chain k = (.ok (), { k with rows := rows' }) ∧
      CardRows.Stored t chain.cards k.rows rows' := by
  have hreverse : ∀ c ∈ chain.cards.reverse, t.Lists c := fun c hc => hcards c (List.mem_reverse.1 hc)
  obtain ⟨rows', hrun, hstored⟩ := each_store_run hk hs h hreverse
  exact ⟨rows', hrun, hstored.of_mem fun c => List.mem_reverse.symm⟩

end CardCache

end EndToEnd
