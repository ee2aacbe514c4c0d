/-
  Messages are opened with the key that their sender had at the time.

  A rotation puts a card in front of the chain that the directory serves, and the card is not from
  before the time of the clock. While the clock does not go back and nobody unregisters the identity,
  the chain therefore still leads back to the card of the key that sealed a message. Going back to the
  time of the message ends at that card, unless one that replaced it is from the same second, or it was
  itself stamped ahead of the clock because it had replaced another one within a second.

  Proved:
  * `Fleet.continues_step`, `Fleet.continues_foldl`: what one event and a whole run keep of the chain.
  * `Fleet.readable_at_its_time`: when the card of that time is found again; then the message opens.
-/
import EndToEnd.Proofs.Fleet.Fetched
import EndToEnd.Proofs.Message.RoundTrip

namespace EndToEnd

variable {S : CipherSuite} {identity : String} {since : Timestamp} {chain : CardChain}

/-! ## Chains that are continued -/

/-- The chain that is served for an identity continues another one, with cards from a time on. -/
def Listings.Continue (t : Listings) (identity : String) (since : Timestamp) (chain : CardChain) :
    Prop :=
  ∃ chain', t.Serves identity chain' ∧ chain.Continues since chain'

namespace Device

variable {d : Device} {s : Site} {t' : Listings} {α : Type} {done : α → Site → Prop}

/-- A card is not from before the time at which it is made. -/
theorem le_timeAfter (now : Timestamp) (previous : Option Timestamp) :
    now ≤ timeAfter now previous := by
  cases previous with
  | none => exact Int64.le_refl now
  | some previous =>
    show now ≤ if now ≤ previous.following then previous.following else now
    split
    · assumption
    · exact Int64.le_refl now

/-- A card that is published takes the place of the head, or is another identity's. -/
theorem Listed.continue (hs : s.Sound S) (hl : Listed S d s t') (hsince : since ≤ s.now)
    (hc : s.listings.Continue identity since chain) : t'.Continue identity since chain := by
  obtain ⟨key, previous, c, hr, hp, hm⟩ := hl
  obtain ⟨chain', hserves, hcontinues⟩ := hc
  by_cases hown : d.identity = identity
  · subst hown
    cases previous with
    | none =>
      obtain ⟨l, hl, hcard, hcurrent⟩ := hserves.listed
      have howned : l.card.identity = d.identity := by
        rw [hcard]
        exact hserves.owned
      exact absurd howned (hr l hl hcurrent)
    | some previous =>
      have hone := hs.listings.current_of_serves hserves
      rw [hs.listings.current_of_serves hr] at hone
      obtain rfl : previous = chain' := List.head_eq_of_cons_eq hone
      refine ⟨_, serves_chainOf hp hm hr.serves, hcontinues.extend ?_⟩
      rw [hm.createdAt]
      exact Int64.le_trans hsince (le_timeAfter _ _)
  · rw [← hm.identity] at hown
    exact ⟨chain', hp.serves_other hown hserves, hcontinues⟩

/-- Of an operation that does what it is for, it has to be said what becomes of the chain. -/
theorem Ends.continue (hs : s.Sound S) {r : Except Error α × Site} (h : Ends S d s done r)
    (hsince : since ≤ s.now) (hc : s.listings.Continue identity since chain)
    (hdone : ∀ a s', r = (.ok a, s') → done a s' → s'.listings.Continue identity since chain) :
    r.2.listings.Continue identity since chain := by
  cases h with
  | refused h =>
    dsimp only
    rw [h.listings]
    exact hc
  | unsealed h listed hl => exact listed.continue hs hsince hc
  | done h => exact hdone _ _ rfl h

end Device

/-- What a device does about its own key keeps the chain going, unless it unregisters the identity. -/
theorem KeyOperation.continue {d : Device} {s : Site} (hs : s.Sound S) (op : KeyOperation)
    (hstays : op = .unregister → d.identity = identity → (d.unregister s).1 ≠ .ok ())
    (hsince : since ≤ s.now) (hc : s.listings.Continue identity since chain) :
    (op.action S d s).2.listings.Continue identity since chain := by
  cases op with
  | issue i =>
    exact (i.ends hs d).continue hs hsince hc fun chain' s' _ hi => hi.listed.continue hs hsince hc
  | unregister =>
    refine (Device.unregister_run hs d).continue hs hsince hc fun _ s' hrun hd => ?_
    obtain ⟨-, other, hother, hrevoke⟩ := hd
    obtain ⟨chain', hserves, hcontinues⟩ := hc
    have hne : d.identity ≠ identity := fun hown => hstays rfl hown (by rw [hrun])
    exact ⟨chain', Listings.serves_of_revoke hrevoke hother hne hserves, hcontinues⟩
  | cleanUp =>
    refine (Device.cleanUp_run hs d).continue hs hsince hc fun _ s' _ hd => ?_
    rw [hd.listings]
    exact hc

/-! ## Sealing, looking up and opening -/

namespace Device

variable {s s' : Site} {d : Device} {format : Message.Format} {data sealed : Octets}

/-- To seal is to seal with the key in the vault. -/
theorem of_encrypt_ok {users : Option FoundCards} (h : d.encrypt S format data users s = (.ok sealed, s')) :
    Message.encrypt S format d.identity data (users.map keysOf) s.vault = (.ok sealed, s'.vault) ∧
      (s.Sound S → s.Rests S s') := by
  have hrests := fun hs : s.Sound S =>
    hs.rests_inVault (Message.encrypt S format d.identity data (users.map keysOf))
  have hrun : Site.inVault (Message.encrypt S format d.identity data (users.map keysOf)) s =
    (.ok sealed, s') := h
  rw [hrun] at hrests
  rw [Site.inVault, Action.on_run] at hrun
  obtain ⟨hr, rfl⟩ := Prod.mk.inj hrun
  exact ⟨Prod.ext hr rfl, hrests⟩

/-- A lookup that passes over the cache finds what is served, and leaves the vault as it is. -/
theorem findUser_run (hs : s.Sound S) (ha : s.directory.directory.available = true)
    (hserves : s.listings.Serves identity chain) :
    ∃ s', findUser S identity true s = (.ok chain, s') ∧ s'.vault = s.vault := by
  obtain ⟨desk, hreload⟩ := Lookup.reload_run hs.listings hs.settled ha hserves
  exact ⟨_, Site.inLookup_run hreload, rfl⟩

/-- A recipient opens a message with a chain that gives the sender's key for a time. -/
theorem decryptAt_run (ha : S.Agrees) (ho : S.Opens) (hc : S.Accepts) {others : Option (List PublicKey)}
    {v v' : Vault} {own reader : KeyPair} {asOf : Timestamp}
    (hown : Vault.loadKey S identity v = (.ok own, v))
    (h : Message.encrypt S format identity data others v = (.ok sealed, v'))
    (hids : PublicKey.DistinctIds S (own.publicKey S :: others.getD [])) (hd : Addressable data)
    (hl : Addressable sealed) (hreader : Vault.loadKey S d.identity s.vault = (.ok reader, s.vault))
    (hmem : reader.publicKey S ∈ own.publicKey S :: others.getD [])
    (hkey : (chain.cardAt asOf).publicKey = own.publicKey S) :
    d.decryptAt S format sealed chain asOf s = (.ok data, s) := by
  obtain ⟨own', tape', hown', hrun⟩ := Message.encrypt_ok h
  rw [hown] at hown'
  obtain rfl : own = own' := Except.ok.inj (Prod.mk.inj hown').1
  have hopen := Message.Format.decrypt_of_mem ha ho hc hids hrun hd hl hmem
  have hne := (Message.Format.addressed hrun hl).ne_nil
  rw [decryptAt, Site.inVault, Action.on_run, Message.decryptAt, Message.decrypt_run hne hreader,
    Option.getD_some, hkey, hopen]
  rfl

end Device

namespace Fleet

variable {f : Fleet}

@[simp] theorem returned_now (f : Fleet) (m : Member) (s : Site) : (f.returned m s).now = f.now := rfl

/-- The event neither unregisters the identity nor turns the clock back. -/
def Steady (identity : String) (f : Fleet) : FleetEvent → Prop
  | .act name (.key .unregister) => ∀ m, f.members.find? name = some m →
      m.device.identity = identity → (m.device.unregister (f.site m)).1 ≠ .ok ()
  | .clock now => f.now ≤ now
  | _ => True

/-- No event of the run does. -/
def SteadyRun (S : CipherSuite) (identity : String) : Fleet → List FleetEvent → Prop
  | _, [] => True
  | f, e :: events => f.Steady identity e ∧ SteadyRun S identity (f.step S e) events

/-- The clock has not gone back behind a time, and the chain that is served for an identity continues
another one from that time on. -/
structure Continues (identity : String) (since : Timestamp) (chain : CardChain) (f : Fleet) :
    Prop where
  clock : since ≤ f.now
  served : f.directory.listings.Continue identity since chain

/-- Every steady event keeps the chain going. -/
theorem continues_step (hf : f.Sound S) (h : f.Continues identity since chain) {e : FleetEvent}
    (hsteady : f.Steady identity e) : (f.step S e).Continues identity since chain := by
  cases e with
  | act name operation =>
    rcases step_act S f name operation with ⟨-, hstep⟩ | ⟨m, hm, hstep⟩
    · rw [hstep]
      exact h
    · rw [hstep]
      have hs := hf.site (Table.mem_of_find? hm)
      refine ⟨h.clock, ?_⟩
      by_cases hkey : ∃ op, operation = .key op
      · obtain ⟨op, rfl⟩ := hkey
        refine op.continue hs ?_ h.clock h.served
        rintro rfl
        exact hsteady m hm
      · have hrests := operation.rests hs m.device fun op hop => hkey ⟨op, hop⟩
        show (operation.action S m.device (f.site m)).2.listings.Continue identity since chain
        rw [hrests.listings]
        exact h.served
  | join => exact ⟨h.clock, h.served⟩
  | share name source =>
    rw [step]
    cases f.members.find? name with
    | none => exact h
    | some m =>
      cases f.members.find? source with
      | none => exact h
      | some other => exact ⟨h.clock, h.served⟩
  | openStore => exact ⟨h.clock, h.served⟩
  | outage => exact ⟨h.clock, h.served⟩
  | clock now => exact ⟨Int64.le_trans h.clock hsteady, h.served⟩

/-- Every steady run does. -/
theorem continues_foldl (hf : f.Sound S) (h : f.Continues identity since chain)
    {events : List FleetEvent} (hsteady : SteadyRun S identity f events) :
    (events.foldl (step S) f).Continues identity since chain := by
  induction events generalizing f with
  | nil => exact h
  | cons e events ih => exact ih (sound_step hf e) (continues_step hf h hsteady.1) hsteady.2

/-- After any run of a fleet, let a device seal data while its key is that of the card which the
directory serves for its identity. Let any run follow in which the clock does not go back and nobody
unregisters the identity, with any number of rotations. A recipient that still has its key and reaches
the directory then gets a card for the identity. Going back from it to the second of sealing ends at
the card of that key if and only if this card is not from later, unless it was the identity's first, and
no card that replaced it is from that very second; and then the recipient gets the data back. -/
theorem readable_at_its_time (ha : S.Agrees) (ho : S.Opens) (hc : S.Accepts) (tape : Tape)
    (now : Timestamp) (events later : List FleetEvent) :
    let f := after S tape now events
    ∀ m ∈ f.members.rows, ∀ own chain format data users sealed s',
      Vault.loadKey S m.device.identity (f.site m).vault = (.ok own, (f.site m).vault) →
      f.directory.listings.current m.device.identity = [chain] →
      own.publicKey S = chain.head.publicKey →
      m.device.encrypt S format data users (f.site m) = (.ok sealed, s') →
      let recipients := own.publicKey S :: (users.map Device.keysOf).getD []
      PublicKey.DistinctIds S recipients → Addressable data → Addressable sealed →
      SteadyRun S m.device.identity (f.returned m s') later →
      let g := later.foldl (step S) (f.returned m s')
      ∀ r ∈ g.members.rows, ∀ reader,
        Vault.loadKey S r.device.identity (g.site r).vault = (.ok reader, (g.site r).vault) →
        reader.publicKey S ∈ recipients → g.directory.directory.available = true →
        ∃ card s₁, Device.findUser S m.device.identity true (g.site r) = (.ok card, s₁) ∧
          let unambiguous := (chain.head.createdAt ≤ f.now ∨ chain.ancestors = []) ∧
            ∀ c ∈ card.cards, c.createdAt = f.now → c.id = chain.head.id
          ((card.cardAt f.now).id = chain.head.id ↔ unambiguous) ∧
          (unambiguous → r.device.decryptAt S format sealed card f.now s₁ = (.ok data, s₁)) := by
  intro f m hm own chain format data users sealed s' hown hcurrent hkey hsealed recipients hids hd hl
    hsteady g r hr reader hreader hmem havailable
  have hf : f.Sound S := sound_after S tape now events
  have hs := hf.site hm
  obtain ⟨hrun, hrests⟩ := Device.of_encrypt_ok hsealed
  have hrests := hrests hs
  have hstart := hf.returned hrests.advances
  have hserves : f.directory.listings.Serves m.device.identity chain := by
    refine hf.listings.serves_of_current ?_
    rw [hcurrent]
    exact List.mem_singleton_self chain
  have hkept : (f.returned m s').Continues m.device.identity f.now chain := by
    refine ⟨Int64.le_refl f.now, chain, ?_, .refl _ _⟩
    show s'.listings.Serves m.device.identity chain
    rw [hrests.listings]
    exact hserves
  -- the chain that is served after the run still leads back to the card of the key
  obtain ⟨card, hserves', hcontinues⟩ := (continues_foldl hstart hkept hsteady).served
  have hg := (sound_foldl hstart later).site hr
  obtain ⟨s₁, hfind, hvault⟩ := Device.findUser_run hg havailable hserves'
  have hiff := hcontinues.cardAt_iff hserves'.falling
  refine ⟨card, s₁, hfind, hiff, fun hunambiguous => ?_⟩
  have hsame := hcontinues.publicKey_eq hserves'.falling (CardChain.walkTo_mem _ _ _)
    (hiff.2 hunambiguous)
  rw [← hvault] at hreader
  exact Device.decryptAt_run ha ho hc hown hrun hids hd hl hreader hmem (hsame.trans hkey.symm)

/-! ## An exchange that is read, and one that is not -/

/-- The sender rotates its key at a later second, and the message can still be read. -/
theorem readable_after_rotation :
    let alice : Device := .plain "alice"
    let bob : Device := .plain "bob"
    let events : List FleetEvent := [.join "phone" alice "phone", .join "desk" bob "desk",
      .act "phone" (.key (.issue .register)), .act "desk" (.key (.issue .register))]
    let later : List FleetEvent :=
      [.clock 2000, .act "phone" (.key .cleanUp), .act "phone" (.key (.issue .rotate))]
    let f := after .transparent (.ofSeed 1) 1000 events
    ∃ m ∈ f.members.rows, ∃ users sealed s',
      m.device.encrypt .transparent .authenticated [1, 2, 3] users (f.site m) = (.ok sealed, s') ∧
      let g := later.foldl (step .transparent) (f.returned m s')
      ∃ r ∈ g.members.rows, ∃ card s₁,
        Device.findUser .transparent m.device.identity true (g.site r) = (.ok card, s₁) ∧
        card.ancestors.length = 1 ∧
        r.device.decryptAt .transparent .authenticated sealed card f.now s₁ = (.ok [1, 2, 3], s₁) := by
  intro alice bob events later f
  let users := some (FoundCards.ofList (f.directory.listings.current "bob"))
  have hrun : ((f.holder? .transparent "phone").any fun a =>
      let sent := a.1.device.encrypt .transparent .authenticated [1, 2, 3] users (f.site a.1)
      let recipients := a.2.1.publicKey .transparent :: (users.map Device.keysOf).getD []
      sent.1.toOption.any fun sealed =>
      let g := later.foldl (step .transparent) (f.returned a.1 sent.2)
      (g.holder? .transparent "desk").any fun b =>
      (Device.findUser .transparent a.1.device.identity true (g.site b.1)).1.toOption.any fun card =>
        decide (f.now ≤ 2000 ∧ PublicKey.DistinctIds .transparent recipients ∧ sealed.length < 1000 ∧
          b.2.1.publicKey .transparent ∈ recipients ∧ g.directory.directory.available = true ∧
          a.2.2.ancestors = [] ∧ card.ancestors.length = 1 ∧
          ∀ c ∈ card.cards, c.createdAt = f.now → c.id = a.2.2.head.id)) = true := by decide +kernel
  -- from here on nothing looks at what the run was
  clear_value events
  have hf : f.Sound .transparent := sound_after _ _ _ _
  obtain ⟨⟨m, own, chain⟩, hm, h⟩ := (Option.any_eq_true _ _).1 hrun
  obtain ⟨sealed, hsealed, h⟩ := (Option.any_eq_true _ _).1 h
  obtain ⟨⟨r, key, _⟩, hr, h⟩ := (Option.any_eq_true _ _).1 h
  obtain ⟨card, hfound, h⟩ := (Option.any_eq_true _ _).1 h
  obtain ⟨hforward, hids, hlength, hmem, havailable, hfirst, hone, htimes⟩ := of_decide_eq_true h
  obtain ⟨hm, hphone⟩ := holds_of_holder hm
  obtain ⟨hr, hdesk⟩ := holds_of_holder hr
  have hm := Table.mem_of_find? hm
  have hr := Table.mem_of_find? hr
  have hsealed := Action.run_of_toOption hsealed
  have hfound := Action.run_of_toOption hfound
  have hcurrent := hf.listings.current_of_serves (hf.listings.serves_of_current hphone.current)
  have hsteady : ∀ s', SteadyRun .transparent m.device.identity (f.returned m s') later := by
    refine fun s' => ⟨?_, trivial, trivial, trivial⟩
    show (f.returned m s').now ≤ 2000
    rw [returned_now]
    exact hforward
  obtain ⟨card', s₁, hfound', -, hread⟩ := readable_at_its_time CipherSuite.transparent_agrees
    CipherSuite.transparent_opens CipherSuite.transparent_accepts (.ofSeed 1) 1000 events later m hm own
    chain .authenticated [1, 2, 3] users sealed _ hphone.loads hcurrent hphone.same hsealed hids
    (by decide) (Nat.lt_trans hlength (by decide)) (hsteady _) r hr key hdesk.loads hmem havailable
  obtain ⟨hcard, rfl⟩ := Prod.mk.inj (hfound.symm.trans hfound')
  obtain rfl := Except.ok.inj hcard
  exact ⟨m, hm, users, sealed, _, hsealed, r, hr, card, _, hfound, hone, hread ⟨.inr hfirst, htimes⟩⟩

/-- The sender rotates its key in the very second of sealing. The recipient then finds the new card for
that second, and is told that the signature is not the sender's. -/
theorem unreadable_after_rotation :
    let alice : Device := .plain "alice"
    let bob : Device := .plain "bob"
    let events : List FleetEvent := [.join "phone" alice "phone", .join "desk" bob "desk",
      .act "phone" (.key (.issue .register)), .act "desk" (.key (.issue .register)), .clock 2000]
    let later : List FleetEvent :=
      [.act "phone" (.key .cleanUp), .act "phone" (.key (.issue .rotate))]
    let f := after .transparent (.ofSeed 1) 1000 events
    ∃ m ∈ f.members.rows, ∃ own chain users sealed s',
      Vault.loadKey .transparent m.device.identity (f.site m).vault = (.ok own, (f.site m).vault) ∧
      f.directory.listings.current m.device.identity = [chain] ∧
      own.publicKey .transparent = chain.head.publicKey ∧
      m.device.encrypt .transparent .authenticated [1, 2, 3] users (f.site m) = (.ok sealed, s') ∧
      let recipients := own.publicKey .transparent :: (users.map Device.keysOf).getD []
      PublicKey.DistinctIds .transparent recipients ∧
      SteadyRun .transparent m.device.identity (f.returned m s') later ∧
      let g := later.foldl (step .transparent) (f.returned m s')
      ∃ r ∈ g.members.rows, ∃ key card s₁,
        Vault.loadKey .transparent r.device.identity (g.site r).vault = (.ok key, (g.site r).vault) ∧
        key.publicKey .transparent ∈ recipients ∧
        Device.findUser .transparent m.device.identity true (g.site r) = (.ok card, s₁) ∧
        (r.device.decryptAt .transparent .authenticated sealed card f.now s₁).1 =
          .error .signatureVerification := by
  intro alice bob events later f
  let users := some (FoundCards.ofList (f.directory.listings.current "bob"))
  have hrun : ((f.holder? .transparent "phone").any fun a =>
      let sent := a.1.device.encrypt .transparent .authenticated [1, 2, 3] users (f.site a.1)
      let recipients := a.2.1.publicKey .transparent :: (users.map Device.keysOf).getD []
      sent.1.toOption.any fun sealed =>
      let g := later.foldl (step .transparent) (f.returned a.1 sent.2)
      (g.holder? .transparent "desk").any fun b =>
      let found := Device.findUser .transparent a.1.device.identity true (g.site b.1)
      found.1.toOption.any fun card =>
        decide (PublicKey.DistinctIds .transparent recipients ∧
          b.2.1.publicKey .transparent ∈ recipients ∧
          (b.1.device.decryptAt .transparent .authenticated sealed card f.now found.2).1 =
            .error .signatureVerification)) = true := by decide +kernel
  clear_value events
  have hf : f.Sound .transparent := sound_after _ _ _ _
  obtain ⟨⟨m, own, chain⟩, hm, h⟩ := (Option.any_eq_true _ _).1 hrun
  obtain ⟨sealed, hsealed, h⟩ := (Option.any_eq_true _ _).1 h
  obtain ⟨⟨r, key, _⟩, hr, h⟩ := (Option.any_eq_true _ _).1 h
  obtain ⟨card, hfound, h⟩ := (Option.any_eq_true _ _).1 h
  obtain ⟨hids, hmem, hrefused⟩ := of_decide_eq_true h
  obtain ⟨hm, hphone⟩ := holds_of_holder hm
  obtain ⟨hr, hdesk⟩ := holds_of_holder hr
  have hcurrent := hf.listings.current_of_serves (hf.listings.serves_of_current hphone.current)
  exact ⟨m, Table.mem_of_find? hm, own, chain, users, sealed, _, hphone.loads, hcurrent, hphone.same,
    Action.run_of_toOption hsealed, hids, ⟨trivial, trivial, trivial⟩, r, Table.mem_of_find? hr, key,
    card, _, hdesk.loads, hmem, Action.run_of_toOption hfound, hrefused⟩

end Fleet

end EndToEnd
