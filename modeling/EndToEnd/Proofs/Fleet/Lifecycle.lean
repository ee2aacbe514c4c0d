/-
  The life of keys in a fleet.

  At any time an identity has at most one current card. An operation that publishes, revokes or forgets
  and fails leaves everything behind as it found it; and a card that was issued is the one that the
  directory serves from then on, with its whole chain, for the key that the device now holds.
-/
import EndToEnd.Proofs.CipherSuite.Transparent
import EndToEnd.Proofs.Fleet.Run

namespace EndToEnd

variable {S : CipherSuite}

/-- Each card names the next one as its predecessor, which is older, of the same identity and marked as
replaced; the last one names none. -/
def Card.LeadsTo : Card → List Card → Prop
  | c, [] => c.previousId = none
  | c, p :: ps =>
    c.previousId = some p.id ∧ p.identity = c.identity ∧ p.createdAt < c.createdAt ∧
      p.outdated = true ∧ p.LeadsTo ps

/-- What a listed card leads back to is linked down to a card without predecessor. -/
theorem Listings.Descends.leadsTo {t : Listings} {identity : String} {newer : Timestamp}
    {id? : Option String} {cs : List Card} (h : t.Descends identity newer id? cs) :
    ∀ c : Card, c.identity = identity → c.createdAt = newer → c.previousId = id? → c.LeadsTo cs := by
  induction h with
  | done => exact fun c _ _ hp => hp
  | @step newer l cs hl hi holder ho _ ih =>
    intro c hc htime hp
    refine ⟨hp, hi.trans hc.symm, ?_, ho, ih l.card hi rfl rfl⟩
    rw [htime]
    exact holder

namespace Fleet

/-- After any run of a fleet, every identity has at most one current card. Let a device then act on its
own key, where the suite opens what it locked and locks what the device's slot is to hold. If it fails,
the directory's cards, the key slots and the cached cards are as they were. If it issues a card, its
slot was empty and holds the key of the card, the card is newer than the one that it replaced, and
searching for the identity finds exactly this card, with the chain that was given back. -/
theorem key_lifecycle (S : CipherSuite) (tape : Tape) (now : Timestamp) (events : List FleetEvent) :
    let f := after S tape now events
    (∀ identity, (f.directory.listings.current identity).length ≤ 1) ∧
    ∀ m ∈ f.members.rows, S.Opens → S.Locks (Utf8.encode (Vault.keySlot m.device.identity)) 64 →
      (∀ (op : KeyOperation) e s',
        op.action S m.device (f.site m) = (.error e, s') →
        s'.listings = f.directory.listings ∧ s'.vault.keys = f.keysOf m.store ∧ s'.cache = m.cache) ∧
      ∀ (i : Issuance) chain s', i.action S m.device (f.site m) = (.ok chain, s') →
        (f.keysOf m.store).hasKey m.device.identity = false ∧
        (∃ key, Vault.loadKey S m.device.identity s'.vault = (.ok key, s'.vault) ∧
          key.publicKey S = chain.head.publicKey) ∧
        (∀ p ∈ chain.ancestors.head?, p.createdAt < chain.head.createdAt) ∧
        (DirectoryLink.search m.device.identity s'.directory).1 = .ok [chain] ∧
        chain.head.LeadsTo chain.ancestors := by
  intro f
  have hf : f.Sound S := sound_after S tape now events
  refine ⟨fun identity => ?_, fun m hm ho hl => ⟨?_, ?_⟩⟩
  · rcases hf.listings.current_eq identity with ⟨hnone, -⟩ | ⟨chain, hone, -⟩
    · rw [hnone]
      exact Nat.zero_le 1
    · rw [hone]
      exact Nat.le_refl 1
  · intro op e s' hrun
    have hends := op.ends (hf.site hm) m.device
    rw [hrun] at hends
    have hunmoved := hends.unmoved_of_error hl rfl
    exact ⟨hunmoved.listings, hunmoved.keys, hunmoved.cache⟩
  · intro i chain s' hrun
    have hends := i.ends (hf.site hm) m.device
    rw [hrun] at hends
    cases hends with
    | done hi =>
      obtain ⟨key, hkey, hstores⟩ := hi.stores
      have hleads := hi.serves.descends.leadsTo chain.head hi.serves.owned rfl rfl
      have hcurrent := hi.advances.sound.listings.current_of_serves hi.serves
      refine ⟨hi.empty, ⟨key, Vault.loadKey_run (hstores.holds ho), hkey⟩, ?_, ?_, hleads⟩
      · intro p hp
        cases hc : chain.ancestors with
        | nil => rw [hc] at hp; cases hp
        | cons q qs =>
          rw [hc] at hp hleads
          cases hp
          exact hleads.2.2.1
      · rw [DirectoryLink.search_run hi.advances.sound.clear, if_pos hi.reachable]
        exact congrArg Except.ok hcurrent

/-- A device that has just joined cannot clean up, since it has no key; it can register, and then the
directory serves its card. -/
theorem key_lifecycle_of_new_device :
    let alice : Device := .plain "alice"
    let f := after .transparent (.ofSeed 1) 1000 [.join "phone" alice "phone"]
    ∃ m ∈ f.members.rows,
      (∃ e s', (KeyOperation.cleanUp).action .transparent m.device (f.site m) = (.error e, s') ∧
        s'.vault.keys = f.keysOf m.store) ∧
      ∃ chain s', (Issuance.register).action .transparent m.device (f.site m) = (.ok chain, s') ∧
        (DirectoryLink.search "alice" s'.directory).1 = .ok [chain] := by
  intro alice f
  have hmem : (⟨"phone", alice, .empty .reject, "phone"⟩ : Member) ∈ f.members.rows :=
    List.mem_cons_self
  have hlocks : CipherSuite.transparent.Locks (Utf8.encode (Vault.keySlot "alice")) 64 :=
    fun _ _ _ _ => ⟨_, rfl⟩
  have h := (key_lifecycle .transparent (.ofSeed 1) 1000 [.join "phone" alice "phone"]).2 _ hmem
    CipherSuite.transparent_opens hlocks
  refine ⟨_, hmem, ?_, ?_⟩
  · have hrun : (KeyOperation.cleanUp).action .transparent alice
        (f.site ⟨"phone", alice, .empty .reject, "phone"⟩) = (.error .missingPrivateKey, _) := rfl
    exact ⟨_, _, hrun, (h.1 .cleanUp _ _ hrun).2.1⟩
  · have hok : ((Issuance.register).action .transparent alice
        (f.site ⟨"phone", alice, .empty .reject, "phone"⟩)).1.isOk = true := by decide +kernel
    cases hrun : (Issuance.register).action .transparent alice
        (f.site ⟨"phone", alice, .empty .reject, "phone"⟩) with
    | mk r s' =>
      rw [hrun] at hok
      cases r with
      | error e => cases hok
      | ok chain => exact ⟨chain, s', rfl, (h.2 .register chain s' hrun).2.2.2.1⟩

end Fleet

end EndToEnd
