/-
  What a device answers when it is asked for several identities at once.

  Identities that do not fit together are refused before anything is looked up. Otherwise the answer has
  one current card for each identity: from the cache, if a search finds one there and is not passed over,
  and else from the directory, which is asked once for each of these.

  Proved:
  * `Device.findUsers_refused`: what is refused, and that nothing is touched.
  * `Fleet.findUsers_answers`: what a device of a fleet answers, after any run.
-/
import EndToEnd.Proofs.Fleet.Fetched

namespace EndToEnd

variable {S : CipherSuite}

/-- Identities that are refused are refused before anything is looked up. -/
theorem Device.findUsers_refused {identities : List String} {e : Error}
    (h : Lookup.validate identities = .error e) (reload : Bool) (s : Site) :
    Device.findUsers S identities reload s = (.error e, s) := by
  rw [Device.findUsers, Site.inLookup, Action.on_run, Lookup.findUsers, h,
    Action.bind_error (Action.lift_run _ _)]

namespace Fleet

/-- A device is asked for identities, with or without passing over its cache. No identities, a blank one
and repeated ones are refused, in this order and with the repeated ones sorted, at any site, and leave it
as it is.

Otherwise let the device be of a fleet, after any run. Some cards are known to it from its cache: none if
the cache is passed over, and else those that a search finds. It answers with cards if the search does
not fail, and if the directory can be reached and serves a card of each identity that is missing among
the known ones. The cards are then the known ones and others that were fetched, in order, one for each
missing identity; the directory was searched for each of these once, and nothing else has happened at the
site. The identities of the cards are those that were asked for. All cards are current, and those that
were fetched are chosen of the directory's answers for their identities. Right afterwards each of these
is got from the cache with its whole chain, whose cards have their rows there. -/
theorem findUsers_answers (S : CipherSuite) (identities : List String) (reload : Bool) :
    (∀ s : Site,
      (identities = [] →
        Device.findUsers S identities reload s = (.error (.emptyArgument "identities"), s)) ∧
      ((∃ i ∈ identities, Text.isBlank i = true) →
        Device.findUsers S identities reload s = (.error (.emptyArgument "identity"), s)) ∧
      (identities ≠ [] → (∀ i ∈ identities, Text.isBlank i = false) → ¬ identities.Nodup →
        ∃ repeated, Device.findUsers S identities reload s = (.error (.duplicateInput repeated), s) ∧
          repeated.Pairwise (· < ·) ∧ ∀ i, i ∈ repeated ↔ 1 < identities.count i)) ∧
    ∀ (tape : Tape) (now : Timestamp) (events : List FleetEvent),
      let f := after S tape now events
      ∀ m ∈ f.members.rows,
        ((Device.findUsers S identities reload (f.site m)).1.isOk = true ↔
          (identities ≠ [] ∧ (∀ i ∈ identities, Text.isBlank i = false) ∧ identities.Nodup) ∧
          ∃ known, Lookup.Known S identities reload m.cache known ∧
            ∀ i ∈ Lookup.missing known identities,
              f.directory.directory.available = true ∧ f.directory.listings.current i ≠ []) ∧
        ∀ (found : FoundCards) (s' : Site),
          Device.findUsers S identities reload (f.site m) = (.ok found, s') →
          ∃ known fetched : List CardChain,
            found.rows = known ++ fetched ∧
            Lookup.Known S identities reload m.cache known ∧
            Site.inLookup (Lookup.fetchEach (Lookup.missing known identities)) (f.site m) =
              (.ok fetched, s') ∧
            s'.directory.directory.searches =
              f.directory.directory.searches + (Lookup.missing known identities).length ∧
            (CardChain.owners found.rows).Perm identities ∧
            CardChain.owners fetched = Lookup.missing known identities ∧
            (∀ chain ∈ found.rows, chain.head.outdated = false) ∧
            ∀ chain ∈ fetched,
              m.cache.policy.select chain.head.identity
                (f.directory.listings.current chain.head.identity) = .ok chain ∧
              CardCache.get S chain.head.id s'.cache = (.ok (some chain), s'.cache) ∧
              ∀ c ∈ chain.cards, s'.cache.rows.find? c.id = some (CardRow.ofCard c) := by
  refine ⟨fun s => ⟨fun hnone => ?none, fun hblank => ?blank, fun hsome hnamed hdups => ?repeats⟩,
    ?found⟩
  case none =>
    subst hnone
    exact Device.findUsers_refused rfl reload s
  case blank => exact Device.findUsers_refused (Lookup.validate_of_blank hblank) reload s
  case repeats =>
    have hrefused : Lookup.validate identities = .error (.duplicateInput (Lookup.repeated identities)) := by
      rw [Lookup.validate_of_named hsome hnamed, if_neg hdups]
    exact ⟨Lookup.repeated identities, Device.findUsers_refused hrefused reload s,
      Lookup.pairwise_inOrder _, fun i => Lookup.mem_repeated⟩
  case found =>
    intro tape now events f m hm
    have hs : (f.site m).Sound S := (sound_after S tape now events).site hm
    have hregular := hs.listings.regular
    refine ⟨?_, fun found s' hrun => ?_⟩
    · rw [Device.findUsers, Site.inLookup, Action.on_run, ← Lookup.validate_eq_ok_iff]
      exact Lookup.findUsers_isOk_iff hs.listings hs.settled
    · have hdesk := Site.inLookup_ok hrun
      obtain ⟨known, fetched, h⟩ := Lookup.findUsers_ok hregular hs.settled.agrees hdesk
      refine ⟨known, fetched, h.rows, h.search, ?_, h.effect.link.searches, h.keys, h.effect.owners,
        h.unmarked, fun chain hmem => ⟨h.effect.chosen chain hmem, h.effect.whole hregular hmem,
          h.effect.cached hregular hmem⟩⟩
      -- a lookup changes nothing of a site but its cache, its link and what it has reported
      have hsite : s' = { f.site m with
          cache := s'.cache, directory := s'.directory, reported := s'.reported } := by
        rw [Device.findUsers, Site.inLookup, Action.on_run] at hrun
        obtain ⟨-, rfl⟩ := Prod.mk.inj hrun
        rfl
      rw [hsite]
      exact Site.inLookup_run h.fetches

/-- A device that has just joined is refused when it repeats itself, and finds somebody who has registered
with one search. -/
theorem findUsers_after_registering :
    let alice : Device := .plain "alice"
    let bob : Device := .plain "bob"
    let f := after .transparent (.ofSeed 1) 1000
      [.join "phone" alice "phone", .act "phone" (.key (.issue .register)), .join "laptop" bob "laptop"]
    ∃ m ∈ f.members.rows,
      (∃ repeated, Device.findUsers .transparent ["bob", "alice", "bob"] true (f.site m) =
        (.error (.duplicateInput repeated), f.site m) ∧ "bob" ∈ repeated ∧ "alice" ∉ repeated) ∧
      ∃ found s', Device.findUsers .transparent ["alice"] false (f.site m) = (.ok found, s') ∧
        (CardChain.owners found.rows).Perm ["alice"] ∧
        s'.directory.directory.searches = f.directory.directory.searches + 1 := by
  intro alice bob f
  have hmem : (⟨"laptop", bob, .empty .reject, "laptop"⟩ : Member) ∈ f.members.rows :=
    Table.mem_insert.2 (.inl rfl)
  refine ⟨_, hmem, ?_, ?_⟩
  · obtain ⟨repeated, hrefused, -, hrepeated⟩ :=
      ((findUsers_answers .transparent ["bob", "alice", "bob"] true).1
        (f.site ⟨"laptop", bob, .empty .reject, "laptop"⟩)).2.2 (by decide) (by decide) (by decide)
    refine ⟨repeated, hrefused, ?_, ?_⟩
    · rw [hrepeated]
      decide
    · rw [hrepeated]
      decide
  · have hok : (Device.findUsers .transparent ["alice"] false
        (f.site ⟨"laptop", bob, .empty .reject, "laptop"⟩)).1.isOk = true := by decide +kernel
    obtain ⟨found, s', hrun⟩ := Action.run_of_isOk hok
    obtain ⟨known, fetched, -, hknown, -, hsearches, hkeys, -⟩ :=
      ((findUsers_answers .transparent ["alice"] false).2 _ _ _ _ hmem).2 found s' hrun
    obtain ⟨hnone, -⟩ := Lookup.Known.owners hknown (CardCache.reliable_empty .reject)
      (fun r hr => absurd hr List.not_mem_nil) (List.pairwise_singleton _ _)
    have hmissing : Lookup.missing known ["alice"] = ["alice"] := by
      rw [Lookup.missing, hnone]
      rfl
    rw [hmissing] at hsearches
    exact ⟨found, s', hrun, hkeys, hsearches⟩

end Fleet

end EndToEnd
