/-
  Directories that cards were published to, and nothing else was done to.

  `Publication` is a directory with the cards that it accepted, as it returned them. Any number of
  cards may be published, some of which are refused, and an identity may come to have several current
  cards. `Publication.Faithful` is what every such history keeps: the directory lists exactly the
  accepted cards, and marks exactly those that another one names as its predecessor.
-/
import EndToEnd.Proofs.Directory.Chain
import EndToEnd.Proofs.Directory.Link

namespace EndToEnd

/-- A directory, and the cards that it has accepted, the earliest first. -/
structure Publication where
  directory : Directory
  accepted : List Card

namespace Publication

/-- One more card is published, or refused. -/
def step (S : CipherSuite) (p : Publication) (raw : RawCard) : Publication :=
  match Directory.publish S raw p.directory with
  | (.ok c, directory) => ⟨directory, p.accepted ++ [c]⟩
  | (.error _, directory) => { p with directory }

/-- What comes of publishing cards one after the other in an empty directory. -/
def ofRaws (S : CipherSuite) (raws : List RawCard) : Publication :=
  raws.foldl (step S) ⟨.empty, []⟩

/-- The listings of the directory. -/
def listings (p : Publication) : Listings := p.directory.listings

/-- The listings and the accepted cards tell of each other. -/
structure Faithful (S : CipherSuite) (p : Publication) : Prop where
  available : p.directory.available = true
  genuine : ∀ l ∈ p.listings.rows, l.card.Genuine S
  standing : ∀ l ∈ p.listings.rows, l.revoked = false
  ordered : p.listings.Ordered
  named : ∀ l ∈ p.listings.rows, l.card.outdated = true →
    ∃ m ∈ p.listings.rows, m.card.previousId = some l.id
  accepted : ∀ c, c ∈ p.accepted ↔ ∃ l ∈ p.listings.rows, c = l.card.marked false

variable {S : CipherSuite} {p : Publication}

theorem faithful_empty (S : CipherSuite) : Faithful S ⟨.empty, []⟩ where
  available := rfl
  genuine := nofun
  standing := nofun
  ordered := nofun
  named := nofun
  accepted := fun _ => ⟨nofun, fun ⟨_, hl, _⟩ => nomatch hl⟩

/-- A card that is read from its raw form and may be listed is accepted. -/
theorem step_accepted (ha : p.directory.available = true) {raw : RawCard} {c : Card} {t : Listings}
    (hc : Card.ofRaw S raw = .ok c) (ht : p.listings.publish c = .ok t) :
    p.step S raw = ⟨{ p.directory with listings := t }, p.accepted ++ [c]⟩ := by
  have hrun : Directory.publish S raw p.directory = (.ok c, { p.directory with listings := t }) := by
    rw [Directory.publish, Action.bind_ok (Directory.reach_of_available ha), hc,
      Action.bind_ok (Action.lift_run _ _), Action.bind_ok (Directory.change_of_ok ht)]
    rfl
  rw [step, hrun]

/-- A card that may not be listed is refused, and nothing comes of it. -/
theorem step_refused (ha : p.directory.available = true) {raw : RawCard} {c : Card} {e : Error}
    (hc : Card.ofRaw S raw = .ok c) (ht : p.listings.publish c = .error e) : p.step S raw = p := by
  have hrun : Directory.publish S raw p.directory = (.error e, p.directory) := by
    rw [Directory.publish, Action.bind_ok (Directory.reach_of_available ha), hc,
      Action.bind_ok (Action.lift_run _ _), Action.bind_error (Directory.change_of_error ht)]
  rw [step, hrun]

/-- Accepting a card keeps the listings faithful. -/
theorem Faithful.published (h : p.Faithful S) {c : Card} {t : Listings} (hg : c.Genuine S)
    (ho : c.outdated = false) (ht : p.listings.publish c = .ok t) :
    Faithful S ⟨{ p.directory with listings := t }, p.accepted ++ [c]⟩ := by
  have hp := Listings.publish_ok ht
  constructor
  · exact h.available
  · intro l hl
    rcases (hp.rows l).1 hl with rfl | ⟨m, hm, rfl⟩
    · exact hg
    · rw [m.facing_card c]
      exact (h.genuine m hm).marked _
  · intro l hl
    rcases (hp.rows l).1 hl with rfl | ⟨m, hm, rfl⟩
    · rfl
    · rw [Listing.facing_revoked]
      exact h.standing m hm
  · exact hp.ordered h.ordered
  · intro l hl hmarked
    rcases (hp.rows l).1 hl with rfl | ⟨m, hm, rfl⟩
    · rw [ho] at hmarked
      cases hmarked
    · rw [Listing.facing_id]
      rcases (m.facing_outdated c).1 hmarked with hmarked | hnamed
      · obtain ⟨n, hn, hnamed⟩ := h.named m hm hmarked
        exact ⟨n.facing c, (hp.rows _).2 (.inr ⟨n, hn, rfl⟩), (n.facing_previousId c).trans hnamed⟩
      · exact ⟨⟨c, false⟩, hp.listed, hnamed⟩
  · intro d
    rw [List.mem_append, List.mem_singleton, h.accepted]
    constructor
    · rintro (⟨l, hl, rfl⟩ | rfl)
      · refine ⟨l.facing c, (hp.rows _).2 (.inr ⟨l, hl, rfl⟩), ?_⟩
        rw [l.facing_card c]
        rfl
      · exact ⟨⟨d, false⟩, hp.listed, by rw [← ho]; rfl⟩
    · rintro ⟨l, hl, rfl⟩
      rcases (hp.rows l).1 hl with rfl | ⟨m, hm, rfl⟩
      · exact .inr (by rw [← ho]; rfl)
      · refine .inl ⟨m, hm, ?_⟩
        rw [m.facing_card c]
        rfl

theorem Faithful.step (h : p.Faithful S) (raw : RawCard) : (p.step S raw).Faithful S := by
  unfold Publication.step
  rcases Directory.publish_run S p.directory raw with ⟨e, hrun⟩ | ⟨c, t, hc, ht, -, hrun⟩
  · rw [hrun]
    exact h
  · obtain ⟨hg, ho, -⟩ := Card.genuine_of_ofRaw hc
    rw [hrun]
    exact h.published hg ho ht

/-- Every history of publications is faithful. -/
theorem faithful_ofRaws (S : CipherSuite) (raws : List RawCard) : (ofRaws S raws).Faithful S := by
  have hrun : ∀ p : Publication, p.Faithful S → (raws.foldl (Publication.step S) p).Faithful S := by
    induction raws with
    | nil => exact fun p h => h
    | cons raw raws ih => exact fun p h => ih _ (h.step raw)
  exact hrun _ (faithful_empty S)

namespace Faithful

variable (h : p.Faithful S) {l m : Listing}
include h

theorem isCurrent_iff (hl : l ∈ p.listings.rows) : l.isCurrent = true ↔ l.card.outdated = false := by
  rw [Listing.isCurrent_eq_true]
  exact ⟨fun hc => hc.2, fun ho => ⟨h.standing l hl, ho⟩⟩

/-- A card is marked if another listed card of its identity names it. -/
theorem outdated_iff (hl : l ∈ p.listings.rows) :
    l.card.outdated = true ↔ ∃ m ∈ p.listings.rows, m.id ≠ l.id ∧
      m.card.identity = l.card.identity ∧ m.card.previousId = some l.id := by
  constructor
  · intro ho
    obtain ⟨m, hm, hnamed⟩ := h.named l hl ho
    obtain ⟨howned, holder, -⟩ := h.ordered.of_named hm hl hnamed
    refine ⟨m, hm, fun hid => ?_, howned.symm, hnamed⟩
    obtain rfl := Table.eq_of_key_eq hm hl hid
    exact Int64.lt_irrefl holder
  · rintro ⟨m, hm, -, -, hnamed⟩
    exact (h.ordered.of_named hm hl hnamed).2.2

/-- A listed card is served with what it leads back to. -/
theorem resolve_descends (hl : l ∈ p.listings.rows) :
    ∃ cs, p.listings.resolve l.card = ⟨l.card, cs⟩ ∧
      p.listings.Descends l.card.identity l.card.createdAt l.card.previousId cs := by
  obtain ⟨cs, hcs⟩ := h.ordered.descends l hl
  exact ⟨cs, Listings.resolve_eq hcs, hcs⟩

/-- Accepted cards with one id are one card. -/
theorem distinct_accepted : ∀ c ∈ p.accepted, ∀ d ∈ p.accepted, c.id = d.id → c = d := by
  intro c hc d hd hid
  obtain ⟨l, hl, rfl⟩ := (h.accepted c).1 hc
  obtain ⟨m, hm, rfl⟩ := (h.accepted d).1 hd
  obtain rfl := Table.eq_of_key_eq hl hm hid
  rfl

end Faithful

/-- A card, its replacement, and the card once more: the first two are accepted. -/
theorem accepted_of_replacement {first second : Card} (hf : first.Genuine S) (hs : second.Genuine S)
    (hfo : first.outdated = false) (hso : second.outdated = false) (hids : first.id ≠ second.id)
    (hprevious : first.previousId = none) (hnamed : second.previousId = some first.id)
    (howned : first.identity = second.identity) (holder : first.createdAt < second.createdAt) :
    (ofRaws S [first.raw, second.raw, first.raw]).accepted = [first, second] := by
  have hfirst : Card.ofRaw S first.raw = .ok first := hf.trans (congrArg _ (by rw [← hfo]))
  have hsecond : Card.ofRaw S second.raw = .ok second := hs.trans (congrArg _ (by rw [← hso]))
  have hone : Listings.publish .empty first = .ok (Table.empty.insert ⟨first, false⟩) := by
    rw [Listings.publish, Listings.replacePredecessor, hprevious]
    rfl
  obtain ⟨t, htwo⟩ : ∃ t, Listings.publish (Table.empty.insert ⟨first, false⟩) second = .ok t := by
    have hfound : ((Table.empty : Listings).insert ⟨first, false⟩).find? first.id =
        some ⟨first, false⟩ :=
      (Table.find?_insert _ _ _).trans (if_pos rfl)
    have hfresh : ((Table.empty : Listings).insert ⟨first, false⟩).has second.id = false :=
      Table.has_eq_false_iff.2 ((Table.find?_insert _ _ _).trans (if_neg hids))
    rw [Listings.publish, if_neg (by rw [hfresh]; exact Bool.false_ne_true),
      Listings.replacePredecessor, hnamed]
    dsimp only
    rw [hfound]
    dsimp only
    rw [if_neg (not_not_intro howned), if_neg (by rw [hfo]; exact Bool.false_ne_true),
      if_neg (Int64.not_le.2 holder)]
    exact ⟨_, rfl⟩
  -- the first card is listed still, marked as replaced
  have hthree : t.publish first = .error (.directory s!"Card {first.id} already published") := by
    have hlisted := ((Listings.publish_ok htwo).rows _).2
      (.inr ⟨⟨first, false⟩, Table.mem_insert.2 (.inl rfl), rfl⟩)
    have hhas : t.has first.id = true :=
      Table.has_eq_true_iff.2 ⟨_, hlisted, Listing.facing_id _ _⟩
    rw [Listings.publish, if_pos hhas]
  have hfirstStep : step S ⟨.empty, []⟩ first.raw =
      ⟨⟨Table.empty.insert ⟨first, false⟩, true, 0⟩, [first]⟩ := step_accepted rfl hfirst hone
  have hsecondStep : step S ⟨⟨Table.empty.insert ⟨first, false⟩, true, 0⟩, [first]⟩ second.raw =
      ⟨⟨t, true, 0⟩, [first, second]⟩ := step_accepted rfl hsecond htwo
  have hthirdStep : step S ⟨⟨t, true, 0⟩, [first, second]⟩ first.raw =
      ⟨⟨t, true, 0⟩, [first, second]⟩ := step_refused rfl hfirst hthree
  rw [ofRaws, List.foldl_cons, hfirstStep, List.foldl_cons, hsecondStep, List.foldl_cons, hthirdStep]
  rfl

end Publication

end EndToEnd
