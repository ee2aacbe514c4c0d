/-
  Two devices that have their keys reach each other with messages, after every run of a fleet.

  Looking a card up, sealing and opening leave the directory's list and all private keys as they are
  (`Fleet.Calm`). So a device that has the private key of its identity's current card has it at every
  step of an exchange (`Fleet.Holds`), and all that the steps need can be asked for before the first
  one. A restored key is held like any other one.

  Proved:
  * `Fleet.Sound.finds`: a lookup that passes over the cache finds the current card.
  * `Fleet.Holds.seals`, `Fleet.Holds.opens`: a device with its key seals, and opens what was sealed.
  * `Fleet.Sound.delivers`: from the steps, the exchange.
  * `Fleet.delivers_after`: so it is after every run, also for a device that has restored its key.
-/
import EndToEnd.Proofs.Device.Spares
import EndToEnd.Proofs.Envelope.Size
import EndToEnd.Proofs.Fleet.Readable

namespace EndToEnd

variable {S : CipherSuite} {α : Type}

/-! ## Restored keys -/

/-- A key that was restored is held. -/
theorem KeyBackup.holds_of_restoreNamed (ho : S.Opens) {b : KeyBackup} {password keyName : String}
    {key : KeyPair} {d d' : BackupDesk}
    (h : b.restoreNamed S password keyName d = (.ok key, d')) :
    d'.vault.keys.Holds S b.identity key := by
  -- storing the key comes last; what goes before has only found out which key it is
  obtain ⟨_, -, h⟩ := Action.of_lift_bind_ok h
  obtain ⟨_, -, h⟩ := Action.of_lift_bind_ok h
  obtain ⟨_, _, -, h⟩ := Action.of_bind_ok h
  obtain ⟨_, _, -, h⟩ := Action.of_bind_ok h
  obtain ⟨_, _, -, h⟩ := Action.of_bind_ok h
  obtain ⟨_, _, -, h⟩ := Action.of_bind_ok h
  obtain ⟨key', -, h⟩ := Action.of_lift_bind_ok h
  obtain ⟨_, d'', hstore, h⟩ := Action.of_bind_ok h
  cases h
  rw [inVault, Action.on_run] at hstore
  obtain ⟨hr, rfl⟩ := Prod.mk.inj hstore
  exact Vault.holds_of_storeKey ho (Prod.ext hr rfl)

/-! ## Sites that stay calm -/

namespace Site

variable {s s' : Site}

/-- The directory's list and its reach are as they were, and so are all private keys. -/
structure Calm (S : CipherSuite) (s s' : Site) : Prop where
  rests : s.Rests S s'
  available : s'.directory.directory.available = s.directory.directory.available
  keys : s'.vault.keys = s.vault.keys

/-- Drawing random octets leaves the keys as they are. -/
theorem Sound.calm_drawn (hs : s.Sound S) (tape : Tape) :
    s.Calm S { s with vault := ⟨s.vault.keys, tape⟩ } :=
  ⟨⟨⟨hs.listings, hs.clear, hs.reliable, hs.coherent⟩, rfl⟩, rfl, rfl⟩

/-- A lookup that passes over the cache finds what is served, whatever the cache holds. -/
theorem Sound.finds (hs : s.Sound S) (ha : s.directory.directory.available = true) {identity : String}
    {chain : CardChain} (hserves : s.listings.Serves identity chain) :
    ∃ s', Device.findUser S identity true s = (.ok chain, s') ∧ s.Calm S s' := by
  obtain ⟨s', hrun, hvault⟩ := Device.findUser_run hs ha hserves
  have hrests := hs.rests_inLookup ((Lookup.maintained_settled hs.listings).findUser identity true)
  obtain ⟨⟨-, hreach⟩, -⟩ := (Lookup.maintained_reaching S s.listings true).findUser identity true
    ⟨s.cache, s.directory, s.reported⟩ ⟨rfl, ha⟩
  obtain rfl : (Device.findUser S identity true s).2 = s' := congrArg Prod.snd hrun
  exact ⟨_, hrun, hrests, hreach.trans ha.symm, congrArg Vault.keys hvault⟩

end Site

/-- Sealing for one card is sealing for its key. -/
theorem Device.encryptFor_run {d : Device} {s : Site} {data sealed : Octets} {user : CardChain}
    {v : Vault} (h : Message.encrypt S .authenticated d.identity data (some [user.head.publicKey])
      s.vault = (.ok sealed, v)) : d.encryptFor S data user s = (.ok sealed, { s with vault := v }) := by
  have hkeys : (some (FoundCards.ofList [user])).map keysOf = some [user.head.publicKey] := rfl
  rw [encryptFor, encrypt, hkeys, Site.inVault, Action.on_run, h]

theorem Device.decrypt_run {d : Device} {s : Site} {data sealed : Octets} {sender : Option CardChain}
    {v : Vault} (h : Message.decrypt S .authenticated d.identity sealed
      (sender.map (·.head.publicKey)) s.vault = (.ok data, v)) :
    d.decrypt S .authenticated sealed sender s = (.ok data, { s with vault := v }) := by
  rw [decrypt, Site.inVault, Action.on_run, h]

/-! ## Fleets that stay calm -/

namespace Fleet

variable {f f' : Fleet} {m : Member} {s : Site} {a : α}

/-- What a device answers when it is asked for something, and the fleet then; nothing where it is not
there, or fails. -/
def ask (f : Fleet) (name : String) (x : Device → Action Site α) : Option (α × Fleet) :=
  (f.members.find? name).bind fun m =>
    let r := f.perform m x
    r.1.1.toOption.map fun a => (a, r.2)

/-- A device that gives an answer is there, and has worked. -/
theorem ask_eq_some {name : String} {x : Device → Action Site α} (h : f.ask name x = some (a, f')) :
    ∃ m s, f.members.find? name = some m ∧ x m.device (f.site m) = (.ok a, s) ∧
      f' = f.returned m s := by
  obtain ⟨m, hm, h⟩ := Option.bind_eq_some_iff.1 h
  obtain ⟨b, hb, h⟩ := Option.map_eq_some_iff.1 h
  obtain ⟨rfl, rfl⟩ := Prod.mk.inj h
  exact ⟨m, _, hm, Action.run_of_toOption hb, rfl⟩

theorem ask_run {name : String} {x : Device → Action Site α} (hm : f.members.find? name = some m)
    (h : x m.device (f.site m) = (.ok a, s)) : f.ask name x = some (a, f.returned m s) := by
  rw [ask, hm, Option.bind_some, perform, h]
  rfl

/-- Nothing has changed that messages need: the directory's list and its reach, the private keys, and
who is there. -/
structure Calm (S : CipherSuite) (f f' : Fleet) : Prop where
  sound : f'.Sound S
  listings : f'.directory.listings = f.directory.listings
  available : f'.directory.directory.available = f.directory.directory.available
  keys : ∀ store, f'.keysOf store = f.keysOf store
  members : ∀ m, f.Includes m → f'.Includes m

theorem includes_returned (hm : f.members.find? m.name = some m) (s : Site) {n : Member}
    (hn : f.Includes n) : (f.returned m s).Includes n := by
  obtain ⟨cache, hn⟩ := hn
  by_cases hname : m.name = n.name
  · rw [hname] at hm
    obtain rfl := Option.some.inj (hm.symm.trans hn)
    exact ⟨s.cache, (find?_members_returned f _ s _).trans (if_pos rfl)⟩
  · exact ⟨cache, (find?_members_returned f m s _).trans ((if_neg hname).trans hn)⟩

theorem Sound.calm_returned (hf : f.Sound S) (hm : f.members.find? m.name = some m)
    (h : (f.site m).Calm S s) : f.Calm S (f.returned m s) where
  sound := hf.returned h.rests.advances
  listings := h.rests.listings
  available := h.available
  keys := by
    intro store
    rw [keysOf_returned]
    by_cases hstore : m.store = store
    · rw [if_pos hstore, ← hstore]
      exact h.keys
    · rw [if_neg hstore]
  members := fun _ => includes_returned hm s

/-- A device answers that gives its answer whatever its cache holds, and stays calm. -/
theorem Sound.answers (hf : f.Sound S) (hm : f.Includes m) {x : Device → Action Site α}
    (h : ∀ cache, (f.site { m with cache }).Sound S →
      ∃ s, x m.device (f.site { m with cache }) = (.ok a, s) ∧ (f.site { m with cache }).Calm S s) :
    ∃ f', f.ask m.name x = some (a, f') ∧ f.Calm S f' := by
  obtain ⟨cache, hm⟩ := hm
  obtain ⟨s, hrun, hcalm⟩ := h cache (hf.site (Table.mem_of_find? hm))
  exact ⟨_, ask_run hm hrun, hf.calm_returned hm hcalm⟩

/-! ## The steps of an exchange -/

variable {own key : KeyPair} {card other : CardChain} {data sealed : Octets}

theorem Holds.calm (h : f.Holds S m key card) (hcalm : f.Calm S f') : f'.Holds S m key card where
  member := hcalm.members m h.member
  current := by
    rw [hcalm.listings]
    exact h.current
  loads := by
    have hkey := h.loads
    rw [Vault.loadKey_eq] at hkey ⊢
    have hkeys : (f'.site m).vault.keys = (f.site m).vault.keys := hcalm.keys m.store
    rw [hkeys, (Prod.mk.inj hkey).1]
  same := h.same

/-- A device finds the current card of an identity where the directory can be reached. -/
theorem Sound.finds (hf : f.Sound S) (ha : f.directory.directory.available = true)
    (hm : f.Includes m) {identity : String} (hc : card ∈ f.directory.listings.current identity) :
    ∃ f', f.ask m.name (fun _ => Device.findUser S identity true) = some (card, f') ∧ f.Calm S f' :=
  hf.answers hm fun _ hs => hs.finds ha (hf.listings.serves_of_current hc)

/-- A device with its key seals whatever is short enough for itself and for another card. -/
theorem Holds.seals (h : f.Holds S m own card) (hf : f.Sound S) (ht : S.Tags)
    (hl : S.LocksUpTo Gcm.maxLength) (other : CardChain) (hd : data ≠ [])
    (hfits : data.length + 144 ≤ Gcm.maxLength) :
    ∃ sealed tape f',
      Envelope.authEncrypt S data own [own.publicKey S, other.head.publicKey] f.tape =
        (.ok sealed, tape) ∧
      f.ask m.name (fun d => d.encryptFor S data other) = some (sealed, f') ∧ f.Calm S f' := by
  have htwo : (([own.publicKey S, other.head.publicKey].map (·.keyId S)).eraseDups).length ≤ 2 :=
    Envelope.length_eraseDups_le _
  have hroom : 47 + 76 * (([own.publicKey S, other.head.publicKey].map
      (·.keyId S)).eraseDups).length ≤ Gcm.maxLength := by
    unfold Gcm.maxLength
    omega
  obtain ⟨sealed, tape, hseal⟩ :=
    Envelope.authEncrypt_runs ht hl (List.cons_ne_nil _ _) hroom hfits own f.tape
  have hformat : Message.Format.authenticated.encrypt S data own
      (own.publicKey S :: (some [other.head.publicKey]).getD []) (f.site m).vault.tape =
        (.ok sealed, tape) := hseal
  have hsome : some [other.head.publicKey] ≠ some [] := by simp
  have hrun := Message.encrypt_run hd h.loads hsome hformat
  obtain ⟨f', hask, hcalm⟩ := hf.answers h.member (x := fun d => d.encryptFor S data other)
    fun _ hs => ⟨_, Device.encryptFor_run hrun, hs.calm_drawn tape⟩
  exact ⟨sealed, tape, f', hseal, hask, hcalm⟩

/-- A device with its key opens what opens with it. -/
theorem Holds.opens (h : f.Holds S m key card) (hf : f.Sound S) (hs : sealed ≠ [])
    (sender : Option CardChain) (hopen : Envelope.authDecrypt S sealed key
      ((sender.map (·.head.publicKey)).getD (key.publicKey S)) = .ok data) :
    ∃ f', f.ask m.name (fun d => d.decrypt S .authenticated sealed sender) = some (data, f') ∧
      f.Calm S f' := by
  have hrun : Message.decrypt S .authenticated m.device.identity sealed
      (sender.map (·.head.publicKey)) (f.site m).vault = (.ok data, (f.site m).vault) := by
    rw [Message.decrypt_run hs h.loads]
    have hopen' : Message.Format.authenticated.decrypt S sealed key
      ((sender.map (·.head.publicKey)).getD (key.publicKey S)) = .ok data := hopen
    rw [hopen']
    rfl
  exact hf.answers h.member fun _ hs => ⟨_, Device.decrypt_run hrun, hs.calm_drawn f.tape⟩

/-! ## The exchange -/

variable {sender reader : Member} {senderCard readerCard : CardChain}

/-- One device looks up the other one's identity and seals data for the card that it finds. The other one
looks up the sender and gets the data back with the card that it finds; so does the sender, without a
card. All this succeeds for whatever data the cipher admits together with its signature. -/
def Delivers (S : CipherSuite) (f : Fleet) (sender reader : Member)
    (senderCard readerCard : CardChain) : Prop :=
  ∃ f₁, f.ask sender.name (fun _ => Device.findUser S reader.device.identity true) =
      some (readerCard, f₁) ∧
    ∀ data : Octets, data ≠ [] → data.length + 144 ≤ Gcm.maxLength →
      ∃ sealed f₂ f₃ f₄ f₅,
        f₁.ask sender.name (fun d => d.encryptFor S data readerCard) = some (sealed, f₂) ∧
        f₂.ask reader.name (fun _ => Device.findUser S sender.device.identity true) =
          some (senderCard, f₃) ∧
        f₃.ask reader.name (fun d => d.decrypt S .authenticated sealed (some senderCard)) =
          some (data, f₄) ∧
        f₄.ask sender.name (fun d => d.decrypt S .authenticated sealed none) = some (data, f₅)

/-- Two devices that have their keys reach each other where the directory can be reached. -/
theorem Sound.delivers (hf : f.Sound S) (hreach : f.directory.directory.available = true)
    (ha : S.Agrees) (ho : S.Opens) (hc : S.Accepts) (ht : S.Tags) (hl : S.LocksUpTo Gcm.maxLength)
    (hsender : f.Holds S sender own senderCard) (hreader : f.Holds S reader key readerCard)
    (hids : PublicKey.DistinctIds S [own.publicKey S, key.publicKey S]) :
    f.Delivers S sender reader senderCard readerCard := by
  rw [hreader.same] at hids
  obtain ⟨f₁, hfind, h₁⟩ := hf.finds hreach hsender.member hreader.current
  refine ⟨f₁, hfind, fun data hd hfits => ?_⟩
  have hsender₁ := hsender.calm h₁
  have hreader₁ := hreader.calm h₁
  obtain ⟨sealed, tape, f₂, hseal, hsealed, h₂⟩ :=
    hsender₁.seals h₁.sound ht hl readerCard hd hfits
  have hsender₂ := hsender₁.calm h₂
  have hreader₂ := hreader₁.calm h₂
  have hreach₂ := h₂.available.trans (h₁.available.trans hreach)
  obtain ⟨f₃, hfound, h₃⟩ := h₂.sound.finds hreach₂ hreader₂.member hsender₂.current
  -- what was sealed opens with either key
  have hlength := Envelope.length_of_authEncrypt ht hseal
  have htwo : (([own.publicKey S, readerCard.head.publicKey].map (·.keyId S)).eraseDups).length ≤ 2 :=
    Envelope.length_eraseDups_le _
  have hne : sealed ≠ [] := by
    rintro rfl
    rw [List.length_nil] at hlength
    omega
  have hshort : Addressable data ∧ Addressable sealed := by
    unfold Gcm.maxLength at hfits
    unfold Addressable
    omega
  have hopen : ∀ k : KeyPair, k.publicKey S ∈ [own.publicKey S, readerCard.head.publicKey] →
      Envelope.authDecrypt S sealed k (own.publicKey S) = .ok data := fun _ =>
    Envelope.authDecrypt_of_mem ha ho hc hids hseal hshort.1 hshort.2
  have hread : Envelope.authDecrypt S sealed key senderCard.head.publicKey = .ok data := by
    rw [← hsender.same]
    refine hopen key ?_
    rw [hreader.same]
    exact List.mem_cons_of_mem _ List.mem_cons_self
  obtain ⟨f₄, hopened, h₄⟩ := (hreader₂.calm h₃).opens h₃.sound hne (some senderCard) hread
  obtain ⟨f₅, hreopened, -⟩ := ((hsender₂.calm h₃).calm h₄).opens h₄.sound hne none
    (hopen own List.mem_cons_self)
  exact ⟨sealed, f₂, f₃, f₄, f₅, hsealed, hfound, hopened, hreopened⟩

/-- A device that has restored its key is there and has it, and nothing has changed in the directory. -/
theorem Sound.restored (hf : f.Sound S) (ho : S.Opens) (hm : f.Includes reader) {password : String}
    (h : f.ask reader.name (fun d => d.restore S password) = some (key, f')) :
    f'.Sound S ∧ f'.directory = f.directory ∧ f'.Includes reader ∧
      Vault.loadKey S reader.device.identity (f'.site reader).vault =
        (.ok key, (f'.site reader).vault) := by
  obtain ⟨m, s, hfound, hrun, rfl⟩ := ask_eq_some h
  obtain ⟨cache, hm⟩ := hm
  obtain rfl := Option.some.inj (hfound.symm.trans hm)
  have hs := hf.site (Table.mem_of_find? hm)
  obtain ⟨hr, rfl⟩ := Prod.mk.inj hrun
  have hheld := KeyBackup.holds_of_restoreNamed ho (Prod.ext hr rfl)
  refine ⟨hf.returned (hs.rests_inBackup _).advances, rfl, includes_returned hm _ ⟨cache, hm⟩, ?_⟩
  refine Vault.loadKey_run ?_
  show KeyStore.Holds S (keysOf _ reader.store) reader.device.identity key
  rw [keysOf_returned, if_pos rfl]
  exact hheld

/-- After any run of a fleet, if the directory can be reached: two devices that have the private keys of
their identities' current cards reach each other with messages, whatever they have cached. So do they
where one of them has just restored its key, if that is the key of the current card. -/
theorem delivers_after (ha : S.Agrees) (ho : S.Opens) (hc : S.Accepts) (ht : S.Tags)
    (hl : S.LocksUpTo Gcm.maxLength) (tape : Tape) (now : Timestamp) (events : List FleetEvent) :
    let f := after S tape now events
    f.directory.directory.available = true →
    (∀ sender reader own key senderCard readerCard,
      f.Holds S sender own senderCard → f.Holds S reader key readerCard →
      PublicKey.DistinctIds S [own.publicKey S, key.publicKey S] →
      f.Delivers S sender reader senderCard readerCard) ∧
    ∀ reader password key g, f.Includes reader →
      f.ask reader.name (fun d => d.restore S password) = some (key, g) →
      ∀ sender own senderCard readerCard, g.Holds S sender own senderCard →
        readerCard ∈ g.directory.listings.current reader.device.identity →
        key.publicKey S = readerCard.head.publicKey →
        PublicKey.DistinctIds S [own.publicKey S, key.publicKey S] →
        g.Delivers S sender reader senderCard readerCard := by
  intro f hreach
  have hf : f.Sound S := sound_after S tape now events
  constructor
  · intro sender reader own key senderCard readerCard hsender hreader hids
    exact hf.delivers hreach ha ho hc ht hl hsender hreader hids
  · intro reader password key g hreader hrestore sender own senderCard readerCard hsender hcurrent hsame
      hids
    obtain ⟨hg, hdirectory, hthere, hloads⟩ := hf.restored ho hreader hrestore
    rw [← hdirectory] at hreach
    exact hg.delivers hreach ha ho hc ht hl hsender ⟨hthere, hcurrent, hloads, hsame⟩ hids

/-- A user writes from a phone to another one's desk, and to the tablet to which that one has taken the
key of the desk. -/
theorem delivers_to_restored :
    let alice : Device := .plain "alice"
    let bob : Device := { Device.plain "bob" with derive := fun _ _ => .ok ⟨.zero 32, .zero 32⟩ }
    let f := after .transparent (.ofSeed 1) 1000
      [.join "phone" alice "phone", .join "desk" bob "desk", .join "tablet" bob "tablet",
        .act "phone" (.key (.issue .register)), .act "desk" (.key (.issue .register)),
        .act "desk" (.backUp "open")]
    (∃ phone desk senderCard readerCard, phone.name = "phone" ∧ desk.name = "desk" ∧
      f.Delivers .transparent phone desk senderCard readerCard) ∧
    ∃ key g, f.ask "tablet" (fun d => d.restore .transparent "open") = some (key, g) ∧
      ∃ phone tablet senderCard readerCard, phone.name = "phone" ∧ tablet.name = "tablet" ∧
        g.Delivers .transparent phone tablet senderCard readerCard := by
  intro alice bob f
  have hrun : ((f.holder? .transparent "phone").any fun a => (f.holder? .transparent "desk").any fun b =>
      (f.members.find? "tablet").any fun t =>
      (f.ask "tablet" (fun d => d.restore .transparent "open")).any fun r =>
      (r.2.holder? .transparent "phone").any fun c =>
      (r.2.directory.listings.current t.device.identity).any fun card =>
        decide (f.directory.directory.available = true ∧
          PublicKey.DistinctIds .transparent
            [a.2.1.publicKey .transparent, b.2.1.publicKey .transparent] ∧
          PublicKey.DistinctIds .transparent
            [c.2.1.publicKey .transparent, r.1.publicKey .transparent] ∧
          r.1.publicKey .transparent = card.head.publicKey)) = true := by decide +kernel
  obtain ⟨⟨phone, own, senderCard⟩, hphone, h⟩ := (Option.any_eq_true _ _).1 hrun
  obtain ⟨⟨desk, key, readerCard⟩, hdesk, h⟩ := (Option.any_eq_true _ _).1 h
  obtain ⟨tablet, htablet, h⟩ := (Option.any_eq_true _ _).1 h
  obtain ⟨⟨restored, g⟩, hrestore, h⟩ := (Option.any_eq_true _ _).1 h
  obtain ⟨⟨phone', own', senderCard'⟩, hphone', h⟩ := (Option.any_eq_true _ _).1 h
  obtain ⟨readerCard', hcard, h⟩ := List.any_eq_true.1 h
  obtain ⟨hreach, hids, hids', hsame⟩ := of_decide_eq_true h
  obtain ⟨hfound, hphone⟩ := holds_of_holder hphone
  obtain ⟨hfound', hphone'⟩ := holds_of_holder hphone'
  obtain ⟨hreached, hdesk⟩ := holds_of_holder hdesk
  have htabletname : tablet.name = "tablet" := Table.key_of_find? htablet
  have hlocks : CipherSuite.transparent.LocksUpTo Gcm.maxLength :=
    fun associated length _ _ => CipherSuite.transparent_locks associated length
  obtain ⟨hboth, hafter⟩ := delivers_after CipherSuite.transparent_agrees CipherSuite.transparent_opens
    CipherSuite.transparent_accepts CipherSuite.transparent_tags hlocks (.ofSeed 1) 1000 _ hreach
  refine ⟨⟨phone, desk, senderCard, readerCard, Table.key_of_find? hfound, Table.key_of_find? hreached,
    ?_⟩, restored, g, hrestore, phone', tablet, senderCard', readerCard', Table.key_of_find? hfound',
    htabletname, ?_⟩
  · exact hboth phone desk own key senderCard readerCard hphone hdesk hids
  · rw [← htabletname] at hrestore
    exact hafter tablet "open" restored g (includes_of_find? htablet) hrestore phone' own' senderCard'
      readerCard' hphone' hcard hsame hids'

end Fleet

end EndToEnd
