/-
  Updates in a fleet.

  Whatever the devices of a fleet have done, and whatever a device has missed of it, an update brings
  that device's cache into line with the directory.
-/
import EndToEnd.Proofs.CipherSuite.Transparent
import EndToEnd.Proofs.Fleet.Run

namespace EndToEnd

variable {S : CipherSuite} {s : Site}

theorem Site.inLookup_run {α : Type} {x : Action LookupDesk α} {r : Except Error α} {d : LookupDesk}
    (h : x ⟨s.cache, s.directory, s.reported⟩ = (r, d)) :
    inLookup x s = (r, { s with cache := d.cache, directory := d.link, reported := d.reported }) := by
  rw [inLookup, Action.on_run, h]

/-- An update succeeds where the directory can be reached. -/
theorem Device.update_of_available (hs : s.Sound S) (ha : s.directory.directory.available = true)
    (d : Device) : ∃ changed s', d.update S s = (.ok changed, s') := by
  rcases Lookup.update_run hs.listings hs.settled d.listening with ⟨hno, -⟩ | ⟨changed, desk, hrun, -⟩
  · rw [show s.directory.directory.available = false from hno] at ha
    cases ha
  · exact ⟨changed, _, Site.inLookup_run hrun⟩

/-- The current cards of a fresh cache are the directory's, so there is one of an identity at most. -/
theorem CardRows.Fresh.eq_of_identity {rows : CardRows} {t : Listings} (h : rows.Fresh t)
    (hs : t.Sound S) {q r : CardRow} (hq : q ∈ rows.rows) (hr : r ∈ rows.rows)
    (hqo : q.outdated = false) (hro : r.outdated = false) (hi : q.identity = r.identity) : q = r := by
  obtain ⟨l, hl, hc, rfl⟩ := h q hq hqo
  obtain ⟨l', hl', hc', rfl⟩ := h r hr hro
  have hsame : l = l' := hs.single l hl l' hl' hc hc' hi
  rw [hsame]

namespace Fleet

/-- After any run of a fleet, let a device update its cache. Then the cards that the cache takes for
current are current cards of the directory, one of an identity at most. The identities that are given
are, in order and without repeats, those with a cached current card that the directory had replaced or
revoked and with a current card in the directory; each is found in the cache with the chain that the
directory serves, and each was reported if somebody listens. Another update changes and reports
nothing. -/
theorem update_restores (S : CipherSuite) (tape : Tape) (now : Timestamp) (events : List FleetEvent)
    {m : Member} (hm : m ∈ (after S tape now events).members.rows) {changed : List String} {s' : Site}
    (h : m.device.update S ((after S tape now events).site m) = (.ok changed, s')) :
    let t := (after S tape now events).directory.listings
    s'.listings = t ∧
    (∀ r ∈ s'.cache.rows.rows, r.outdated = false →
      (∃ l ∈ t.rows, l.isCurrent = true ∧ r = CardRow.ofCard l.card) ∧
      ∀ q ∈ s'.cache.rows.rows, q.outdated = false → q.identity = r.identity → q = r) ∧
    changed.Pairwise (· < ·) ∧
    (∀ identity, identity ∈ changed ↔
      (∃ r ∈ m.cache.rows.rows, r.outdated = false ∧ r.identity = identity ∧
        ∃ l ∈ t.rows, l.id = r.id ∧ l.isCurrent = false) ∧
      t.current identity ≠ []) ∧
    (∀ identity ∈ changed, ∃ chain, t.current identity = [chain] ∧
      Device.findCachedUser S identity s' = (.ok (some chain), s')) ∧
    s'.reported = (if m.device.listening then changed else []) ∧
    m.device.update S s' = (.ok [], s') := by
  intro t
  have hs := (sound_after S tape now events).site hm
  have ht : t.Sound S := hs.listings
  rcases Lookup.update_run ht hs.settled m.device.listening with ⟨-, hrun⟩ | ⟨changed', d, hrun, hd⟩
  · rw [Device.update, Site.inLookup_run hrun] at h
    cases h
  · rw [Device.update, Site.inLookup_run hrun] at h
    injection h with hchanged hs'
    injection hchanged with hchanged
    subst hchanged hs'
    refine ⟨hd.settled.listings, ?_, hd.ordered, ?_, ?_, hd.reported, ?_⟩
    · intro r hr ho
      exact ⟨hd.fresh r hr ho, fun q hq hqo hi => hd.fresh.eq_of_identity ht hq hr hqo ho hi⟩
    · intro identity
      rw [hd.exactly, ← ht.hasCurrent_iff, Listings.hasCurrent, Bool.not_eq_true',
        List.isEmpty_eq_false_iff]
      exact .rfl
    · intro identity hi
      rcases ht.current_eq identity with ⟨-, hno⟩ | ⟨chain, hone, hserves⟩
      · obtain ⟨-, l, hl, hc, hli⟩ := (hd.exactly identity).1 hi
        exact absurd hli (hno l hl hc)
      · refine ⟨chain, hone, ?_⟩
        have hcards : t.cardsOf identity = chain.cards := by
          rw [Listings.cardsOf, hone, List.flatMap_singleton]
        have hcovers := hd.covers identity hi
        rw [hcards] at hcovers
        have hfound := Lookup.findCachedUser_run ht hd.settled hd.fresh hserves hcovers
        rw [Device.findCachedUser, Site.inLookup_run hfound]
    · have hagain : Lookup.update S m.device.listening d = (.ok [], d) :=
        Lookup.update_again hd.settled hd.fresh hd.reachable m.device.listening
      rw [Device.update, Site.inLookup_run hagain]

/-- One device finds the card of another one. That one is lost, and a new one in its place rotates the
key: in vain while the directory is out of reach, and again when it is back. Then the first device
updates its cache. -/
theorem update_restores_after_rotation :
    let alice : Device := .plain "alice"
    let bob : Device := { Device.plain "bob" with listening := true }
    let events : List FleetEvent := [.join "phone" alice "phone", .join "desk" bob "desk",
      .act "phone" (.key (.issue .register)), .act "desk" (.findUser "alice" false),
      .join "spare" alice "spare", .outage false true, .act "spare" (.key (.issue .rotate)),
      .outage true true, .act "spare" (.key (.issue .rotate)), .outage true true]
    let f := after .transparent (.ofSeed 1) 1000 events
    ∃ m ∈ f.members.rows, m.name = "desk" ∧ ∃ changed s',
      m.device.update .transparent (f.site m) = (.ok changed, s') ∧ changed.Pairwise (· < ·) ∧
        m.device.update .transparent s' = (.ok [], s') := by
  intro alice bob events f
  have hjoined : (f.members.find? "desk").isSome = true := by decide +kernel
  obtain ⟨m, hm⟩ := Option.isSome_iff_exists.1 hjoined
  have hmem : m ∈ f.members.rows := Table.mem_of_find? hm
  have hs := (sound_after .transparent (.ofSeed 1) 1000 events).site hmem
  have ha : f.directory.directory.available = true := by decide +kernel
  obtain ⟨changed, s', hrun⟩ := Device.update_of_available hs ha m.device
  have h := update_restores .transparent (.ofSeed 1) 1000 events hmem hrun
  exact ⟨m, hmem, Table.key_of_find? hm, changed, s', hrun, h.2.2.1, h.2.2.2.2.2.2⟩

end Fleet

end EndToEnd
