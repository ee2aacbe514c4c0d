/-
  The identities of a fleet are isolated from each other.

  Devices share one directory, one backup store and perhaps a key store, and find what is theirs by
  names that are made from their identity. A fleet may be in any state here, also in one that no run
  leads to. Whatever a device is asked to do, and whether or not it is done, all that other identities
  have there is as it was, and so are all other devices with their caches.

  Proved:
  * `Fleet.spares_perform`: one device acts once.
  * `Fleet.spares_acts`: devices act one after the other; what an identity has is as it was, unless one
    of its own devices has acted.
-/
import EndToEnd.Proofs.CipherSuite.Transparent
import EndToEnd.Proofs.Device.Spares

namespace EndToEnd.Fleet

variable {S : CipherSuite} {f f' f'' : Fleet} {m : Member} {s : Site} {identity other name : String}

/-- What belongs to an identity is as it was: its cards in the directory, with their marks, its backup
entries, and its slot in every key store. -/
structure Spares (identity : String) (f f' : Fleet) : Prop where
  cards : f'.directory.listings.owned identity = f.directory.listings.owned identity
  entries : BackupEntries.Spares identity f.backups.store.entries f'.backups.store.entries
  slots : ∀ store, (f.keysOf store).Spares identity (f'.keysOf store)

theorem Spares.refl (identity : String) (f : Fleet) : f.Spares identity f :=
  ⟨rfl, fun _ => rfl, fun _ => .refl _ _⟩

theorem Spares.trans (h : f.Spares identity f') (h' : f'.Spares identity f'') :
    f.Spares identity f'' where
  cards := h'.cards.trans h.cards
  entries := fun keyName => (h'.entries keyName).trans (h.entries keyName)
  slots := fun store => (h.slots store).trans (h'.slots store)

/-! ## One device acts -/

theorem find?_members_perform {α : Type} (f : Fleet) (m : Member) (x : Device → Action Site α)
    (name : String) :
    (f.perform m x).2.members.find? name =
      if m.name = name then some { m with cache := (x m.device (f.site m)).2.cache }
      else f.members.find? name :=
  find?_members_returned f m _ name

theorem spares_returned (h : (f.site m).Spares identity s) :
    f.Spares identity (f.returned m s) where
  cards := h.cards
  entries := h.entries
  slots := by
    intro store
    rw [keysOf_returned]
    by_cases hstore : m.store = store
    · rw [if_pos hstore, ← hstore]
      exact h.keys
    · rw [if_neg hstore]
      exact .refl _ _

/-- A device that acts spares all identities but its own, and the backup store stays its clients'. -/
theorem spares_perform (S : CipherSuite) (halone : f.backups.meanwhile = none) (m : Member)
    (op : Operation) (hne : other ≠ m.device.identity) :
    f.Spares other (f.perform m (op.action S)).2 ∧
      (f.perform m (op.action S)).2.backups.meanwhile = none := by
  have hstart : (f.site m).Spares other (f.site m) := ⟨rfl, .refl _ _, fun _ => rfl, halone⟩
  obtain ⟨hspares, -⟩ := op.spares (S := S) hne (f.site m) hstart
  exact ⟨spares_returned hspares, hspares.alone⟩

/-- In a fleet in any state, let a device do what it is asked to. Of every identity but its own, all
cards in the directory, with their marks and in their order, the backup entries under all names and the
slots in all key stores are as they were, whether or not it is done; and so is every other device, with
its card cache. Nobody but the devices writes to the backup store here. -/
theorem others_untouched (S : CipherSuite) (f : Fleet) (halone : f.backups.meanwhile = none)
    (m : Member) (op : Operation) (other : String) (hne : other ≠ m.device.identity) :
    let f' := (f.perform m (op.action S)).2
    f'.directory.listings.owned other = f.directory.listings.owned other ∧
    (∀ keyName, f'.backups.store.entries.find? (other, keyName) =
      f.backups.store.entries.find? (other, keyName)) ∧
    (∀ store, (f'.keysOf store).slots.find? (Vault.keySlot other) =
        (f.keysOf store).slots.find? (Vault.keySlot other) ∧
      (f'.keysOf store).sealing = (f.keysOf store).sealing) ∧
    ∀ name, name ≠ m.name → f'.members.find? name = f.members.find? name := by
  intro f'
  obtain ⟨hspares, -⟩ := spares_perform S halone m op hne
  refine ⟨hspares.cards, hspares.entries, fun store => ?_, fun name hname => ?_⟩
  · exact ⟨(hspares.slots store).slot, (hspares.slots store).sealing⟩
  · exact (find?_members_perform f m _ name).trans (if_neg (Ne.symm hname))

/-- One user, who is new, strikes out all backups: the card, the backup and the private key of another
one, in the same stores, are as they were. -/
theorem others_untouched_by_newcomer :
    let bob : Member := ⟨"desk", .plain "bob", .empty .reject, "shared"⟩
    let listing : Listing := ⟨CacheRun.cardOfAlice 1 none, false⟩
    let entry : BackupEntry := ⟨"alice", "main", [1, 2, 3], [], "", 1, 1⟩
    let slot : KeySlot := ⟨Vault.keySlot "alice", [4, 5, 6]⟩
    let f : Fleet :=
      { (empty (.ofSeed 1) 1000).join bob with
        directory := .reliable ⟨Table.empty.insert listing, true, 0⟩
        backups := .quiet ⟨Table.empty.insert entry, true⟩
        stores := Table.empty.insert ⟨"shared", ⟨Table.empty.insert slot, none⟩⟩ }
    let f' := (f.perform bob ((Operation.resetBackup none).action .transparent)).2
    f'.directory.listings.owned "alice" = [listing] ∧
      f'.backups.store.entries.find? ("alice", "main") = some entry ∧
      (f'.keysOf "shared").slots.find? (Vault.keySlot "alice") = some slot := by
  intro bob listing entry slot f f'
  have hne : "alice" ≠ bob.device.identity := by decide
  obtain ⟨hcards, hentries, hslots, -⟩ :=
    others_untouched .transparent f rfl bob (.resetBackup none) "alice" hne
  exact ⟨hcards, hentries "main", (hslots "shared").1⟩

/-! ## Devices act one after the other -/

/-- What a member does leaves it the device that it was. -/
theorem find?_members_act (S : CipherSuite) (f : Fleet) (name actor : String) (op : Operation) :
    ((f.step S (.act actor op)).members.find? name).map (·.device) =
      (f.members.find? name).map (·.device) := by
  rcases step_act S f actor op with ⟨-, hstep⟩ | ⟨m, hm, hstep⟩
  · rw [hstep]
  · have hactor : m.name = actor := Table.key_of_find? hm
    rw [hstep, find?_members_perform]
    by_cases hname : m.name = name
    · rw [if_pos hname, ← hname, hactor, hm]
      rfl
    · rw [if_neg hname]

/-- Devices have acted, each of them one that another identity has. What this identity has is as it was,
and so are all devices that have not acted. -/
theorem spares_acts (S : CipherSuite) (halone : f.backups.meanwhile = none)
    (acts : List (String × Operation))
    (hothers : ∀ a ∈ acts, ∀ m, f.members.find? a.1 = some m → other ≠ m.device.identity) :
    let f' := acts.foldl (fun f a => f.step S (.act a.1 a.2)) f
    f.Spares other f' ∧
      ∀ name, (∀ a ∈ acts, name ≠ a.1) → f'.members.find? name = f.members.find? name := by
  induction acts generalizing f with
  | nil => exact ⟨.refl _ _, fun _ _ => rfl⟩
  | cons a acts ih =>
    -- the device that acts first spares the identity, and leaves the others the devices that they were
    have hfirst : f.Spares other (f.step S (.act a.1 a.2)) ∧
        (f.step S (.act a.1 a.2)).backups.meanwhile = none ∧
        ∀ name, name ≠ a.1 →
          (f.step S (.act a.1 a.2)).members.find? name = f.members.find? name := by
      rcases step_act S f a.1 a.2 with ⟨-, hstep⟩ | ⟨m, hm, hstep⟩
      · rw [hstep]
        exact ⟨.refl _ _, halone, fun _ _ => rfl⟩
      · have hname : m.name = a.1 := Table.key_of_find? hm
        obtain ⟨hspares, hstill⟩ := spares_perform S halone m a.2 (hothers a List.mem_cons_self m hm)
        rw [hstep]
        refine ⟨hspares, hstill, fun name hne => ?_⟩
        rw [find?_members_perform, hname, if_neg (Ne.symm hne)]
    obtain ⟨hspares, hstill, hmembers⟩ := hfirst
    have hnext : ∀ b ∈ acts, ∀ m, (f.step S (.act a.1 a.2)).members.find? b.1 = some m →
        other ≠ m.device.identity := by
      intro b hb m hm
      have hdevice := find?_members_act S f b.1 a.1 a.2
      rw [hm] at hdevice
      obtain ⟨m₀, hm₀, hsame⟩ := Option.map_eq_some_iff.1 hdevice.symm
      have hdifferent := hothers b (List.mem_cons_of_mem _ hb) m₀ hm₀
      exact fun hname => hdifferent (hname.trans (congrArg Device.identity hsame).symm)
    obtain ⟨hrest, hkept⟩ := ih hstill hnext
    refine ⟨hspares.trans hrest, fun name hname => ?_⟩
    rw [List.foldl_cons, hkept name fun b hb => hname b (List.mem_cons_of_mem _ hb)]
    exact hmembers name (hname a List.mem_cons_self)

end EndToEnd.Fleet
