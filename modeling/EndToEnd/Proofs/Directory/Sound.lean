/-
  The invariant of a directory that only its own rules change.

  Every listed card is genuine; a card that names a predecessor was listed after it, for the same
  identity and at a later time, and the predecessor is marked as replaced; and no identity has two
  current cards. Publishing keeps this where a card without predecessor is the identity's only one,
  and revoking keeps it always. Listings only grow: no card is taken off the list, and none becomes
  current again.
-/
import EndToEnd.Directory
import EndToEnd.Proofs.Card.Genuine
import EndToEnd.Proofs.Table

namespace EndToEnd

namespace Listing

/-- The listing once a card is there: marked as replaced, if the card names it. -/
def facing (l : Listing) (c : Card) : Listing :=
  if c.previousId = some l.id then { l with card := l.card.marked true } else l

theorem facing_card (l : Listing) (c : Card) :
    (l.facing c).card = l.card.marked (l.facing c).card.outdated := by
  unfold facing
  split <;> rfl

@[simp] theorem facing_id (l : Listing) (c : Card) : (l.facing c).id = l.id := by
  unfold facing; split <;> rfl
@[simp] theorem facing_identity (l : Listing) (c : Card) :
    (l.facing c).card.identity = l.card.identity := by
  unfold facing; split <;> rfl
@[simp] theorem facing_createdAt (l : Listing) (c : Card) :
    (l.facing c).card.createdAt = l.card.createdAt := by
  unfold facing; split <;> rfl
@[simp] theorem facing_previousId (l : Listing) (c : Card) :
    (l.facing c).card.previousId = l.card.previousId := by
  unfold facing; split <;> rfl
@[simp] theorem facing_revoked (l : Listing) (c : Card) : (l.facing c).revoked = l.revoked := by
  unfold facing; split <;> rfl

theorem facing_of_named {l : Listing} {c : Card} (h : c.previousId = some l.id) :
    l.facing c = { l with card := l.card.marked true } := if_pos h

theorem facing_of_ne {l : Listing} {c : Card} (h : c.previousId ≠ some l.id) : l.facing c = l :=
  if_neg h

theorem facing_outdated (l : Listing) (c : Card) :
    (l.facing c).card.outdated = true ↔ l.card.outdated = true ∨ c.previousId = some l.id := by
  unfold facing
  split
  · rename_i h; simp [h]
  · rename_i h; simp [h]

theorem isCurrent_eq_true {l : Listing} :
    l.isCurrent = true ↔ l.revoked = false ∧ l.card.outdated = false := by
  unfold isCurrent
  rw [Bool.and_eq_true, Bool.not_eq_true', Bool.not_eq_true']

theorem isCurrent_of_outdated {l : Listing} (h : l.card.outdated = true) : l.isCurrent = false := by
  unfold isCurrent
  rw [h, Bool.not_true, Bool.and_false]

end Listing

namespace Listings

/-- A card that names a predecessor was listed after it, for the same identity and at a later time, and
the predecessor is marked as replaced. -/
def Ordered (t : Listings) : Prop :=
  ∀ l ∈ t.rows, ∀ id, l.card.previousId = some id →
    ∃ p ∈ t.rows, p.id = id ∧ p.card.identity = l.card.identity ∧
      p.card.createdAt < l.card.createdAt ∧ p.card.outdated = true

/-- What holds of the listings of a directory at all times. -/
structure Sound (S : CipherSuite) (t : Listings) : Prop where
  genuine : ∀ l ∈ t.rows, l.card.Genuine S
  named : ∀ l ∈ t.rows, Text.isBlank l.card.identity = false
  revoked : ∀ l ∈ t.rows, l.revoked = true → l.card.outdated = true
  previous : ∀ l ∈ t.rows, ∀ id, l.card.previousId = some id →
    ∃ p ∈ t.rows, p.id = id ∧ p.card.identity = l.card.identity ∧
      p.card.createdAt < l.card.createdAt ∧ p.card.outdated = true
  single : ∀ l ∈ t.rows, ∀ l' ∈ t.rows, l.isCurrent = true → l'.isCurrent = true →
    l.card.identity = l'.card.identity → l = l'

theorem sound_empty (S : CipherSuite) : Sound S .empty where
  genuine := nofun
  named := nofun
  revoked := nofun
  previous := nofun
  single := nofun

/-- What holds of them also where anybody publishes, so that an identity may have several current cards
and a blank one may have some. -/
structure Regular (S : CipherSuite) (t : Listings) : Prop where
  genuine : ∀ l ∈ t.rows, l.card.Genuine S
  revoked : ∀ l ∈ t.rows, l.revoked = true → l.card.outdated = true
  ordered : t.Ordered

theorem regular_empty (S : CipherSuite) : Regular S .empty := ⟨nofun, nofun, nofun⟩

variable {S : CipherSuite} {t t' u : Listings} {c : Card}

theorem Sound.regular (h : Sound S t) : t.Regular S := ⟨h.genuine, h.revoked, h.previous⟩

theorem Regular.isCurrent_iff (h : t.Regular S) {l : Listing} (hl : l ∈ t.rows) :
    l.isCurrent = true ↔ l.card.outdated = false := by
  rw [Listing.isCurrent_eq_true]
  constructor
  · exact fun hc => hc.2
  · intro ho
    refine ⟨?_, ho⟩
    cases hr : l.revoked with
    | false => rfl
    | true => rw [h.revoked l hl hr] at ho; cases ho

theorem Sound.isCurrent_iff (h : Sound S t) {l : Listing} (hl : l ∈ t.rows) :
    l.isCurrent = true ↔ l.card.outdated = false := h.regular.isCurrent_iff hl

/-- The card that a listed card names as predecessor is an older card of its identity, and marked. -/
theorem Ordered.of_named (ho : t.Ordered) {l p : Listing} (hl : l ∈ t.rows) (hp : p ∈ t.rows)
    (h : l.card.previousId = some p.id) :
    p.card.identity = l.card.identity ∧ p.card.createdAt < l.card.createdAt ∧
      p.card.outdated = true := by
  obtain ⟨q, hq, hid, hi, holder, hmarked⟩ := ho l hl p.id h
  obtain rfl := Table.eq_of_key_eq hq hp hid
  exact ⟨hi, holder, hmarked⟩

/-- All listings are still there, and none has become current. -/
def Grows (t t' : Listings) : Prop :=
  ∀ l ∈ t.rows, ∃ l' ∈ t'.rows, l'.card = l.card.marked l'.card.outdated ∧
    (l.isCurrent = false → l'.isCurrent = false)

theorem Grows.refl (t : Listings) : t.Grows t := fun l hl => ⟨l, hl, rfl, id⟩

theorem Grows.trans (h : t.Grows t') (h' : t'.Grows u) : t.Grows u := by
  intro l hl
  obtain ⟨m, hm, hcard, hgone⟩ := h l hl
  obtain ⟨n, hn, hcard', hgone'⟩ := h' m hm
  refine ⟨n, hn, ?_, fun hno => hgone' (hgone hno)⟩
  rw [hcard', hcard]
  rfl

/-! ## Publishing -/

/-- A card was published: it is new, its predecessor was a current, older card of its identity, and
it has taken that card's place. -/
structure Published (t t' : Listings) (c : Card) : Prop where
  fresh : ∀ l ∈ t.rows, l.id ≠ c.id
  replaces : ∀ id, c.previousId = some id →
    ∃ p ∈ t.rows, p.id = id ∧ p.card.identity = c.identity ∧ p.card.outdated = false ∧
      p.card.createdAt < c.createdAt
  rows : ∀ l, l ∈ t'.rows ↔ l = ⟨c, false⟩ ∨ ∃ p ∈ t.rows, l = p.facing c

/-- A predecessor that is replaced is an older current card of the identity. -/
theorem replacePredecessor_some {id : String} (hp : c.previousId = some id)
    (h : t.replacePredecessor c = .ok t') :
    ∃ p ∈ t.rows, p.id = id ∧ p.card.identity = c.identity ∧ p.card.outdated = false ∧
      p.card.createdAt < c.createdAt ∧ t' = t.insert { p with card := p.card.marked true } := by
  unfold replacePredecessor at h
  rw [hp] at h
  dsimp only at h
  cases hf : t.find? id with
  | none =>
    rw [hf] at h
    cases h
  | some p =>
    rw [hf] at h
    dsimp only at h
    split at h
    · cases h
    split at h
    · cases h
    split at h
    · cases h
    rename_i hidentity houtdated holder
    obtain ⟨hmem, hid⟩ := Table.find?_eq_some_iff.1 hf
    exact ⟨p, hmem, hid, Decidable.not_not.1 hidentity, Bool.eq_false_iff.2 houtdated,
      Int64.not_le.1 holder, (Except.ok.inj h).symm⟩

/-- The row of the predecessor is the only one that changes when it faces the card. -/
theorem mem_insert_facing {p : Listing} (hmem : p ∈ t.rows) (hp : c.previousId = some p.id)
    (l : Listing) : l ∈ (t.insert { p with card := p.card.marked true }).rows ↔
      ∃ q ∈ t.rows, l = q.facing c := by
  have hother : ∀ {q : Listing}, q.id ≠ p.id → q.facing c = q := by
    intro q hne
    refine Listing.facing_of_ne ?_
    rw [hp]
    exact fun e => hne (Option.some.inj e).symm
  rw [Table.mem_insert]
  constructor
  · rintro (rfl | ⟨hl, hne⟩)
    · exact ⟨p, hmem, (Listing.facing_of_named hp).symm⟩
    · exact ⟨l, hl, (hother hne).symm⟩
  · rintro ⟨q, hq, rfl⟩
    by_cases hid : q.id = p.id
    · obtain rfl := Table.eq_of_key_eq hq hmem hid
      exact .inl (Listing.facing_of_named hp)
    · rw [hother hid]
      exact .inr ⟨hq, hid⟩

/-- Marking the predecessor gives each row as it faces the card. -/
theorem replacePredecessor_ok (h : t.replacePredecessor c = .ok t') :
    (∀ id, c.previousId = some id →
      ∃ p ∈ t.rows, p.id = id ∧ p.card.identity = c.identity ∧ p.card.outdated = false ∧
        p.card.createdAt < c.createdAt) ∧
      ∀ l, l ∈ t'.rows ↔ ∃ p ∈ t.rows, l = p.facing c := by
  cases hp : c.previousId with
  | none =>
    rw [replacePredecessor, hp] at h
    cases h
    refine ⟨nofun, fun l => ?_⟩
    have hself : ∀ p : Listing, p.facing c = p := fun p => Listing.facing_of_ne (by rw [hp]; nofun)
    constructor
    · exact fun hl => ⟨l, hl, (hself l).symm⟩
    · rintro ⟨p, hmem, rfl⟩
      rw [hself]
      exact hmem
  | some id =>
    obtain ⟨p, hmem, rfl, hidentity, hcurrent, holder, rfl⟩ := replacePredecessor_some hp h
    refine ⟨fun id hid => ?_, mem_insert_facing hmem hp⟩
    cases hid
    exact ⟨p, hmem, rfl, hidentity, hcurrent, holder⟩

theorem publish_ok (h : t.publish c = .ok t') : Published t t' c := by
  unfold publish at h
  split at h
  · cases h
  · rename_i hhas
    have hfresh : ∀ l ∈ t.rows, l.id ≠ c.id :=
      Table.find?_eq_none_iff.1 (Table.has_eq_false_iff.1 (by simpa using hhas))
    cases hr : t.replacePredecessor c with
    | error e => rw [hr] at h; cases h
    | ok u =>
      rw [hr] at h
      cases h
      obtain ⟨hreplaces, hrows⟩ := replacePredecessor_ok hr
      refine ⟨hfresh, hreplaces, fun l => ?_⟩
      rw [Table.mem_insert]
      refine or_congr_right ?_
      rw [hrows]
      constructor
      · exact fun hl => hl.1
      · rintro ⟨p, hp, rfl⟩
        refine ⟨⟨p, hp, rfl⟩, ?_⟩
        rw [Listing.facing_id]
        exact hfresh p hp

namespace Published

variable (h : Published t t' c)
include h

theorem grows : t.Grows t' := by
  intro l hl
  refine ⟨l.facing c, (h.rows _).2 (.inr ⟨l, hl, rfl⟩), l.facing_card c, fun hc => ?_⟩
  cases hf : (l.facing c).isCurrent with
  | false => rfl
  | true =>
    obtain ⟨hr, ho⟩ := Listing.isCurrent_eq_true.1 hf
    rw [Listing.facing_revoked] at hr
    have ho' : l.card.outdated = false := by
      cases hl' : l.card.outdated with
      | false => rfl
      | true => rw [(l.facing_outdated c).2 (.inl hl')] at ho; cases ho
    rw [Listing.isCurrent_eq_true.2 ⟨hr, ho'⟩] at hc
    cases hc

theorem listed : ⟨c, false⟩ ∈ t'.rows := (h.rows _).2 (.inl rfl)

/-- A listing other than the new one that is current was current before, and is not the one that was
replaced. -/
theorem of_current {l : Listing} (hl : l ∈ t'.rows) (hne : l ≠ ⟨c, false⟩)
    (hc : l.isCurrent = true) : l ∈ t.rows ∧ c.previousId ≠ some l.id := by
  rcases (h.rows l).1 hl with rfl | ⟨p, hp, rfl⟩
  · exact absurd rfl hne
  · have hnot : c.previousId ≠ some p.id := by
      intro hid
      have := (Listing.isCurrent_eq_true.1 hc).2
      rw [(p.facing_outdated c).2 (.inr hid)] at this
      cases this
    rw [Listing.facing_of_ne hnot]
    exact ⟨hp, hnot⟩

/-- Publishing keeps listings in order. -/
theorem ordered (ho : t.Ordered) : t'.Ordered := by
  intro l hl id hid
  rcases (h.rows l).1 hl with rfl | ⟨p, hp, rfl⟩
  · obtain ⟨q, hq, hqid, hidentity, -, holder⟩ := h.replaces id hid
    refine ⟨q.facing c, (h.rows _).2 (.inr ⟨q, hq, rfl⟩), by simpa using hqid, by simpa using hidentity,
      by simpa using holder, (q.facing_outdated c).2 (.inr ?_)⟩
    rw [hqid]
    exact hid
  · rw [Listing.facing_previousId] at hid
    obtain ⟨q, hq, hqid, hidentity, holder, houtdated⟩ := ho p hp id hid
    exact ⟨q.facing c, (h.rows _).2 (.inr ⟨q, hq, rfl⟩), by simpa using hqid, by simpa using hidentity,
      by simpa using holder, (q.facing_outdated c).2 (.inl houtdated)⟩

/-- Publishing a genuine card keeps listings regular. -/
theorem regular (hs : t.Regular S) (hgenuine : c.Genuine S) : t'.Regular S where
  genuine := by
    intro l hl
    rcases (h.rows l).1 hl with rfl | ⟨p, hp, rfl⟩
    · exact hgenuine
    · rw [p.facing_card c]
      exact (hs.genuine p hp).marked _
  revoked := by
    intro l hl hr
    rcases (h.rows l).1 hl with rfl | ⟨p, hp, rfl⟩
    · cases hr
    · rw [Listing.facing_revoked] at hr
      exact (p.facing_outdated c).2 (.inl (hs.revoked p hp hr))
  ordered := h.ordered hs.ordered

/-- Publishing keeps the invariant, where a card without predecessor is the first current one of its
identity. -/
theorem sound (hs : Sound S t) (hgenuine : c.Genuine S) (hnamed : Text.isBlank c.identity = false)
    (hfirst : c.previousId = none → ∀ l ∈ t.rows, l.isCurrent = true → l.card.identity ≠ c.identity) :
    Sound S t' where
  genuine := (h.regular hs.regular hgenuine).genuine
  named := by
    intro l hl
    rcases (h.rows l).1 hl with rfl | ⟨p, hp, rfl⟩
    · exact hnamed
    · rw [Listing.facing_identity]
      exact hs.named p hp
  revoked := (h.regular hs.regular hgenuine).revoked
  previous := h.ordered hs.previous
  single := by
    -- a current listing of the new card's identity would be the one that it replaced
    have hnew : ∀ l ∈ t'.rows, l.isCurrent = true → l.card.identity = c.identity →
        l = ⟨c, false⟩ := by
      intro l hl hc hi
      apply Decidable.byContradiction
      intro hne
      obtain ⟨hmem, hnot⟩ := h.of_current hl hne hc
      cases hp : c.previousId with
      | none => exact hfirst hp l hmem hc hi
      | some id =>
        obtain ⟨p, hpm, rfl, hpi, hpo, -⟩ := h.replaces id hp
        have := hs.single l hmem p hpm hc ((hs.isCurrent_iff hpm).2 hpo) (hi.trans hpi.symm)
        rw [this] at hnot
        exact hnot hp
    intro l hl l' hl' hc hc' hi
    by_cases e : l = ⟨c, false⟩
    · subst e
      exact (hnew l' hl' hc' hi.symm).symm
    · by_cases e' : l' = ⟨c, false⟩
      · subst e'
        exact absurd (hnew l hl hc hi) e
      · exact hs.single l (h.of_current hl e hc).1 l' (h.of_current hl' e' hc').1 hc hc' hi

end Published

/-! ## Revoking -/

theorem revoke_ok {id : String} (h : t.revoke id = .ok t') :
    ∃ l ∈ t.rows, l.id = id ∧
      ∀ l', l' ∈ t'.rows ↔ l' = ⟨l.card.marked true, true⟩ ∨ (l' ∈ t.rows ∧ l'.id ≠ id) := by
  unfold revoke at h
  cases hf : t.find? id with
  | none => rw [hf] at h; cases h
  | some l =>
    rw [hf] at h
    cases h
    obtain ⟨hl, rfl⟩ := Table.find?_eq_some_iff.1 hf
    exact ⟨l, hl, rfl, fun l' => Table.mem_insert⟩

theorem revoke_listed {l : Listing} (hl : l ∈ t.rows) : ∃ t', t.revoke l.id = .ok t' := by
  unfold revoke
  rw [Table.find?_key hl]
  exact ⟨_, rfl⟩

/-- Revoking takes nothing off the list. -/
theorem revoke_grows {id : String} (h : t.revoke id = .ok t') : t.Grows t' := by
  obtain ⟨l, hl, rfl, hrows⟩ := revoke_ok h
  intro p hp
  by_cases hid : p.id = l.id
  · obtain rfl := Table.eq_of_key_eq hp hl hid
    exact ⟨_, (hrows _).2 (.inl rfl), rfl, fun _ => rfl⟩
  · exact ⟨p, (hrows p).2 (.inr ⟨hp, hid⟩), rfl, id⟩

/-- Revoking keeps listings regular. -/
theorem revoke_regular (hs : t.Regular S) {id : String} (h : t.revoke id = .ok t') :
    t'.Regular S := by
  obtain ⟨l, hl, rfl, hrows⟩ := revoke_ok h
  constructor
  · intro p hp
    rcases (hrows p).1 hp with rfl | ⟨hp, -⟩
    · exact (hs.genuine l hl).marked true
    · exact hs.genuine p hp
  · intro p hp hr
    rcases (hrows p).1 hp with rfl | ⟨hp, -⟩
    · rfl
    · exact hs.revoked p hp hr
  · intro p hp id hid
    have hprevious : ∃ q ∈ t.rows, q.id = id ∧ q.card.identity = p.card.identity ∧
        q.card.createdAt < p.card.createdAt ∧ q.card.outdated = true := by
      rcases (hrows p).1 hp with rfl | ⟨hp, -⟩
      · exact hs.ordered l hl id hid
      · exact hs.ordered p hp id hid
    obtain ⟨q, hq, hqid, hi, holder, ho⟩ := hprevious
    by_cases hql : q.id = l.id
    · obtain rfl := Table.eq_of_key_eq hq hl hql
      exact ⟨_, (hrows _).2 (.inl rfl), hqid, hi, holder, rfl⟩
    · exact ⟨q, (hrows q).2 (.inr ⟨hq, hql⟩), hqid, hi, holder, ho⟩

/-- Revoking keeps the invariant. -/
theorem revoke_sound (hs : Sound S t) {id : String} (h : t.revoke id = .ok t') : Sound S t' := by
  have hregular := revoke_regular hs.regular h
  obtain ⟨l, hl, rfl, hrows⟩ := revoke_ok h
  have hcurrent : ∀ p ∈ t'.rows, p.isCurrent = true → p ∈ t.rows := by
    intro p hp hc
    rcases (hrows p).1 hp with rfl | ⟨hp, -⟩
    · cases hc
    · exact hp
  refine ⟨hregular.genuine, ?_, hregular.revoked, hregular.ordered, ?_⟩
  · intro p hp
    rcases (hrows p).1 hp with rfl | ⟨hp, -⟩
    · exact hs.named l hl
    · exact hs.named p hp
  · intro p hp q hq hc hc' hi
    exact hs.single p (hcurrent p hp hc) q (hcurrent q hq hc') hc hc' hi

end Listings

end EndToEnd
