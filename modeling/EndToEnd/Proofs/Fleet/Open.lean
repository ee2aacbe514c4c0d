/-
  Fleets whose directory is open to others.

  Besides what the devices of a fleet do, anybody publishes cards and revokes them, and calls to the
  directory fail in any pattern. Then an identity may have several current cards, and a device may be
  told of none; but every listed card is genuine and in order with its predecessor, no card is taken off
  the list, and every cache agrees with it. `Fleet.Regular` is the invariant.

  Proved:
  * `Operation.extends`: whatever a device does keeps its site regular and takes nothing off the
    directory's list.
  * `Fleet.regular_openStep`, `Fleet.regular_openRun`: every event keeps a fleet regular, and so does
    every run.
-/
import EndToEnd.Proofs.Fleet.Run

open EndToEnd.Action

namespace EndToEnd

/-- What can happen to a fleet whose directory is open to others. -/
inductive OpenEvent where
  /-- Something happens in the fleet. -/
  | inside (e : FleetEvent)
  /-- Somebody publishes a card. -/
  | publish (raw : RawCard)
  /-- Somebody revokes a card. -/
  | revoke (id : String)
  /-- From now on, these calls to the directory fail. -/
  | faults (searches checks : Schedule Error)

namespace Fleet

/-- The fleet after an event. -/
def openStep (S : CipherSuite) (f : Fleet) : OpenEvent → Fleet
  | .inside e => f.step S e
  | .publish raw => { f with directory := (DirectoryLink.publish S raw f.directory).2 }
  | .revoke id => { f with directory := (DirectoryLink.revoke id f.directory).2 }
  | .faults searches checks =>
    { f with directory.searchFaults := searches, directory.outdatedFaults := checks }

/-- The fleet after some events, the first of them first. -/
def openRun (S : CipherSuite) (f : Fleet) (events : List OpenEvent) : Fleet :=
  events.foldl (openStep S) f

end Fleet

variable {S : CipherSuite} {t t' : Listings} {α : Type}

/-! ## Links -/

namespace DirectoryLink

/-- Publishing over a link changes the listings by one card at most. -/
theorem publish_regular {l : DirectoryLink} (hs : l.listings.Regular S) (raw : RawCard) :
    (publish S raw l).2.listings.Regular S ∧ l.listings.Grows (publish S raw l).2.listings := by
  rcases publish_run S l raw with ⟨e, hrun⟩ | ⟨c, t, hc, ht, -, hrun⟩
  · rw [hrun]
    exact ⟨hs, .refl _⟩
  · have hpublished := Listings.publish_ok ht
    rw [hrun]
    exact ⟨hpublished.regular hs (Card.genuine_of_ofRaw hc).1, hpublished.grows⟩

/-- So does revoking. -/
theorem revoke_regular {l : DirectoryLink} (hs : l.listings.Regular S) (id : String) :
    (revoke id l).2.listings.Regular S ∧ l.listings.Grows (revoke id l).2.listings := by
  cases ha : l.directory.available with
  | false =>
    have hrun : Directory.revoke id l.directory = (.error Directory.unreachable, l.directory) :=
      bind_error (Directory.reach_of_unavailable ha)
    rw [revoke, call, on_run, hrun]
    exact ⟨hs, .refl _⟩
  | true =>
    cases ht : l.listings.revoke id with
    | ok t =>
      rw [revoke_run ha ht]
      exact ⟨Listings.revoke_regular hs ht, Listings.revoke_grows ht⟩
    | error e =>
      have hrun : Directory.revoke id l.directory = (.error e, l.directory) := by
        rw [Directory.revoke, bind_ok (Directory.reach_of_available ha), Directory.change_of_error ht]
      rw [revoke, call, on_run, hrun]
      exact ⟨hs, .refl _⟩

end DirectoryLink

/-! ## Sites -/

namespace Site

/-- The directory has this list, which is regular, and the cache agrees with it. -/
structure Holds (S : CipherSuite) (t : Listings) (s : Site) : Prop where
  regular : t.Regular S
  listings : s.listings = t
  reliable : s.cache.Reliable
  coherent : s.cache.rows.Coherent t

/-- The directory has a list that this one has grown to, and the cache agrees with it. -/
def Extends (S : CipherSuite) (t : Listings) (s : Site) : Prop := ∃ t', t.Grows t' ∧ s.Holds S t'

theorem Holds.extends {s : Site} (h : s.Holds S t) : s.Extends S t := ⟨t, .refl t, h⟩

variable {Q : α → Prop}

theorem undisturbed_holds (hs : t.Regular S) : Undisturbed (Holds S t) (LookupDesk.Agrees t) where
  inVault := fun _ _ h => ⟨⟨h.regular, h.listings, h.reliable, h.coherent⟩, fun _ _ => trivial⟩
  inBackup := fun _ _ h => ⟨⟨h.regular, h.listings, h.reliable, h.coherent⟩, fun _ _ => trivial⟩
  intoSink := fun _ _ _ h => ⟨⟨h.regular, h.listings, h.reliable, h.coherent⟩, fun _ _ => trivial⟩
  inLookup := fun hx => hx.on (fun _ h => ⟨h.reliable, h.coherent, h.listings⟩)
    fun _ _ _ hd => ⟨hs, hd.listings, hd.reliable, hd.coherent⟩

theorem holds_inVault (x : Action Vault α) : Keeps (Holds S t) (inVault x) fun _ => True :=
  fun s h => (undisturbed_holds h.regular).inVault x s h

/-- A search of a device finds what is served. -/
theorem holds_search (identity : String) :
    Keeps (Holds S t) (call (DirectoryLink.search identity)) fun cards =>
      ∀ chain ∈ cards, t.Serves identity chain := by
  intro s h
  obtain ⟨hd, hq⟩ := Lookup.keeps_search h.regular identity ⟨s.cache, s.directory, s.reported⟩
    ⟨h.reliable, h.coherent, h.listings⟩
  exact ⟨⟨h.regular, hd.listings, h.reliable, h.coherent⟩, hq⟩

theorem holds_storeChain {chain : CardChain} {identity : String} (hc : t.Serves identity chain) :
    Keeps (Holds S t) (inCache (CardCache.storeChain chain)) fun _ => True := by
  intro s h
  obtain ⟨rows, hrun, hstored⟩ := CardCache.storeChain_run h.reliable h.regular h.coherent hc.lists
  rw [inCache, on_run, hrun]
  exact ⟨⟨h.regular, h.listings, h.reliable.withRows rows, hstored.coherent⟩, fun _ _ => trivial⟩

theorem holds_reset : Keeps (Holds S t) (inCache CardCache.reset) fun _ => True :=
  fun _ h => ⟨⟨h.regular, h.listings, h.reliable.withRows _, CardRows.coherent_empty t⟩,
    fun _ _ => trivial⟩

/-- What leaves the list as it is also leaves it grown. -/
theorem extends_of_holds {x : Action Site α} (hx : ∀ t, Keeps (Holds S t) x fun _ => True) :
    Keeps (Extends S t) x fun _ => True := by
  rintro s ⟨t', hg, h⟩
  exact ⟨⟨t', hg, (hx t' s h).1⟩, fun _ _ => trivial⟩

/-- Revoking a card takes nothing off the list. -/
theorem extends_revoke (id : String) :
    Keeps (Extends S t) (call (DirectoryLink.revoke id)) fun _ => True := by
  rintro s ⟨t', hg, h⟩
  obtain rfl := h.listings
  obtain ⟨hregular, hgrows⟩ := DirectoryLink.revoke_regular h.regular id
  exact ⟨⟨_, hg.trans hgrows, hregular, rfl, h.reliable, h.coherent.mono hgrows⟩, fun _ _ => trivial⟩

end Site

/-! ## Operations -/

namespace Device

open Site Action.Leads

variable (d : Device)

/-- Publishing a card lists it in place of the one that it names, and caches its chain. -/
theorem publish_extends (key : KeyPair) {previous : Option CardChain}
    (hr : ∀ chain, previous = some chain → t.Serves d.identity chain) :
    Leads (Holds S t) (Extends S t) (d.publish S key previous) := by
  intro s hs
  rw [publish_eq, bind_ok (get_run s)]
  cases hraw : RawCard.generate S key d.identity (previous.map (·.head.id))
      (timeAfter s.now (previous.map (·.head.createdAt))) with
  | error e =>
    rw [bind_error (lift_run _ _)]
    exact hs.extends
  | ok raw =>
    rw [bind_ok (lift_run _ _)]
    rcases DirectoryLink.publish_run S s.directory raw with ⟨e, hrun⟩ | ⟨c, t', hc, ht, -, hrun⟩
    · have hcall : call (DirectoryLink.publish S raw) s = (.error e, s) := by
        rw [call, on_run, hrun]
      rw [bind_error hcall]
      exact hs.extends
    · have hcall : call (DirectoryLink.publish S raw) s =
          (.ok c, { s with directory := s.directory.listing t' }) := by
        rw [call, on_run, hrun]
      obtain rfl := hs.listings
      have hpublished := Listings.publish_ok ht
      have hmade := Card.madeFor_of_generate hraw hc
      have hheld : Holds S t' { s with directory := s.directory.listing t' } :=
        ⟨hpublished.regular hs.regular hmade.genuine, rfl, hs.reliable, hs.coherent.mono hpublished.grows⟩
      have hkeep : Keeps (Holds S t') (do
          inVault (Vault.storeKey S d.identity key)
          inCache (CardCache.storeChain (chainOf c previous))
          pure (chainOf c previous)) fun _ => True :=
        .bind (holds_inVault _) fun _ _ =>
          .bind (holds_storeChain (serves_chainOf hpublished hmade hr)) fun _ _ => .pure trivial
      rw [bind_ok hcall]
      exact ⟨t', hpublished.grows, (hkeep _ hheld).1⟩

theorem registerWith_extends (key : KeyPair) :
    Leads (Holds S t) (Extends S t) (d.registerWith S key) := by
  refine after (holds_inVault _) (fun _ => Holds.extends) fun _ _ => ?_
  refine after (holds_search d.identity) (fun _ => Holds.extends) fun cards _ => ?_
  cases cards with
  | nil => exact publish_extends d key nofun
  | cons chain cards => exact of_keeps (.throw (Q := fun _ => True) _) fun _ => Holds.extends

theorem register_extends : Leads (Holds S t) (Extends S t) (d.register S) :=
  after (holds_inVault _) (fun _ => Holds.extends) fun key _ => registerWith_extends d key

theorem rotate_extends : Leads (Holds S t) (Extends S t) (d.rotate S) := by
  refine after (holds_inVault _) (fun _ => Holds.extends) fun _ _ => ?_
  refine after (holds_search d.identity) (fun _ => Holds.extends) fun cards hcards => ?_
  cases cards with
  | nil => exact of_keeps (.throw (Q := fun _ => True) _) fun _ => Holds.extends
  | cons chain cards =>
    refine after (.lift fun current hcurrent => hcurrent) (fun _ => Holds.extends)
      fun current hcurrent => ?_
    refine after (holds_inVault _) (fun _ => Holds.extends) fun key _ => publish_extends d key ?_
    intro chosen heq
    obtain rfl := Option.some.inj heq
    exact hcards current (DuplicatePolicy.mem_of_choose hcurrent)

theorem unregister_extends : Keeps (Extends S t) d.unregister fun _ => True := by
  refine .bind (extends_of_holds fun _ => (holds_search d.identity).true) fun cards _ => ?_
  cases cards with
  | nil => exact .throw _
  | cons chain cards =>
    refine .bind (.each fun c _ => extends_revoke c.head.id) fun _ _ => ?_
    exact .bind (extends_of_holds fun _ => holds_inVault _) fun _ _ => extends_of_holds fun _ => holds_reset

theorem cleanUp_holds : Keeps (Holds S t) d.cleanUp fun _ => True := by
  refine .bind (holds_inVault _) fun had _ => ?_
  cases had with
  | true => exact holds_reset
  | false => exact .throw _

end Device

theorem Issuance.extends (d : Device) (i : Issuance) :
    Leads (Site.Holds S t) (Site.Extends S t) (i.action S d) := by
  cases i with
  | register => exact d.register_extends
  | registerWith key => exact d.registerWith_extends key
  | rotate => exact d.rotate_extends

theorem KeyOperation.extends (d : Device) (op : KeyOperation) :
    Leads (Site.Holds S t) (Site.Extends S t) (op.action S d) := by
  cases op with
  | issue i => exact (i.extends d).silently
  | unregister => exact fun s hs => (d.unregister_extends s hs.extends).1
  | cleanUp => exact .of_keeps d.cleanUp_holds fun _ => Site.Holds.extends

/-- Whatever a device does keeps its site regular, and takes nothing off the directory's list. -/
theorem Operation.extends (d : Device) (op : Operation) :
    Leads (Site.Holds S t) (Site.Extends S t) (op.action S d) := by
  by_cases hkey : ∃ k, op = .key k
  · obtain ⟨op, rfl⟩ := hkey
    exact op.extends d
  · intro s hs
    have hkeeps := op.keeps (Site.undisturbed_holds hs.regular) (Lookup.maintained_agreeing hs.regular)
      (Lookup.keeps_agreement hs.regular) d fun k h => hkey ⟨k, h⟩
    exact (hkeeps s hs).1.extends

/-! ## Fleets -/

namespace Fleet

variable {f : Fleet} {m : Member} {s : Site}

/-- The directory's list is regular, and every cache agrees with it. -/
structure Regular (S : CipherSuite) (f : Fleet) : Prop where
  listings : f.directory.listings.Regular S
  reliable : ∀ m ∈ f.members.rows, m.cache.Reliable
  coherent : ∀ m ∈ f.members.rows, m.cache.rows.Coherent f.directory.listings

theorem regular_empty (S : CipherSuite) (tape : Tape) (now : Timestamp) :
    (empty tape now).Regular S where
  listings := Listings.regular_empty S
  reliable := nofun
  coherent := nofun

theorem Regular.site (h : f.Regular S) (hm : m ∈ f.members.rows) :
    (f.site m).Holds S f.directory.listings :=
  ⟨h.listings, rfl, h.reliable m hm, h.coherent m hm⟩

/-- The directory's list grows. -/
theorem Regular.grow (h : f.Regular S) {directory : DirectoryLink}
    (hs : directory.listings.Regular S) (hg : f.directory.listings.Grows directory.listings) :
    Regular S { f with directory } :=
  ⟨hs, h.reliable, fun m hm => (h.coherent m hm).mono hg⟩

/-- A device joins whose cache agrees with the directory. -/
theorem Regular.join (h : f.Regular S) (hr : m.cache.Reliable)
    (hc : m.cache.rows.Coherent f.directory.listings) : (f.join m).Regular S where
  listings := h.listings
  reliable := Table.forall_insert hr h.reliable
  coherent := Table.forall_insert hc h.coherent

/-- A device has worked. -/
theorem Regular.returned (h : f.Regular S) (hs : s.Extends S f.directory.listings) :
    (f.returned m s).Regular S := by
  obtain ⟨t, hg, ht⟩ := hs
  obtain rfl := ht.listings
  have hjoined := (h.grow ht.regular hg).join (m := { m with cache := s.cache }) ht.reliable ht.coherent
  exact ⟨hjoined.listings, hjoined.reliable, hjoined.coherent⟩

theorem regular_step (h : f.Regular S) (e : FleetEvent) : (f.step S e).Regular S := by
  cases e with
  | act member operation =>
    rcases step_act S f member operation with ⟨-, hstep⟩ | ⟨m, hm, hstep⟩
    · rw [hstep]
      exact h
    · rw [hstep]
      exact h.returned (operation.extends m.device _ (h.site (Table.mem_of_find? hm)))
  | join name device store =>
    exact h.join (CardCache.reliable_empty _) (CardRows.coherent_empty _)
  | share name source =>
    rw [step]
    cases hm : f.members.find? name with
    | none => exact h
    | some m =>
      cases ho : f.members.find? source with
      | none => exact h
      | some other =>
        have hcache := (h.reliable m (Table.mem_of_find? hm)).withRows other.cache.rows
        exact h.join hcache (h.coherent other (Table.mem_of_find? ho))
  | openStore name sealing => exact ⟨h.listings, h.reliable, h.coherent⟩
  | outage directory backups => exact ⟨h.listings, h.reliable, h.coherent⟩
  | clock now => exact ⟨h.listings, h.reliable, h.coherent⟩

/-- Every event keeps a fleet regular. -/
theorem regular_openStep (h : f.Regular S) (e : OpenEvent) : (f.openStep S e).Regular S := by
  cases e with
  | inside e => exact regular_step h e
  | publish raw =>
    obtain ⟨hs, hg⟩ := DirectoryLink.publish_regular h.listings raw
    exact h.grow hs hg
  | revoke id =>
    obtain ⟨hs, hg⟩ := DirectoryLink.revoke_regular h.listings id
    exact h.grow hs hg
  | faults searches checks => exact h.grow h.listings (.refl _)

/-- Every run keeps a fleet regular. -/
theorem regular_openRun (h : f.Regular S) (events : List OpenEvent) :
    (f.openRun S events).Regular S := by
  unfold openRun
  induction events generalizing f with
  | nil => exact h
  | cons e events ih => exact ih (regular_openStep h e)

end Fleet

end EndToEnd
