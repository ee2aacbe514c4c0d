/-
  The cards of one identity on a directory's list, while others publish and revoke.

  Nothing is assumed of the list: cards may name predecessors of other identities, and an identity may
  have several current cards. A card replaces a card of its own identity only, and has an id of its own;
  so publishing for one identity leaves the listings of all others as they are, with their marks and
  in their order. So does revoking a card that was found for that identity.
-/
import EndToEnd.Proofs.Card.Parse
import EndToEnd.Proofs.Directory.Link
import EndToEnd.Proofs.Directory.Sound

open EndToEnd.Action

namespace EndToEnd

variable {t t' : Listings} {identity other id : String} {c : Card}

namespace Listings

/-- The listings of an identity. -/
def owned (identity : String) (t : Listings) : List Listing :=
  t.rows.filter fun l => l.card.identity = identity

theorem mem_owned {l : Listing} : l ∈ t.owned identity ↔ l ∈ t.rows ∧ l.card.identity = identity := by
  rw [owned, List.mem_filter, decide_eq_true_iff]

/-- Writing a listing of one identity, in place of one of that identity, changes nothing for another. -/
theorem owned_insert {l : Listing} (hl : l.card.identity ≠ other)
    (hold : ∀ m ∈ t.rows, m.id = l.id → m.card.identity ≠ other) :
    owned other (Table.insert l t) = t.owned other :=
  Table.filter_insert (decide_eq_false hl) fun m hm hid => decide_eq_false (hold m hm hid)

theorem owned_replacePredecessor (h : t.replacePredecessor c = .ok t') (hne : c.identity ≠ other) :
    t'.owned other = t.owned other := by
  unfold replacePredecessor at h
  cases hp : c.previousId with
  | none =>
    rw [hp] at h
    cases h
    rfl
  | some id =>
    rw [hp] at h
    dsimp only at h
    cases hf : t.find? id with
    | none => rw [hf] at h; cases h
    | some p =>
      rw [hf] at h
      dsimp only at h
      obtain ⟨hmem, rfl⟩ := Table.find?_eq_some_iff.1 hf
      split at h
      · cases h
      split at h
      · cases h
      split at h
      · cases h
      rename_i hidentity _ _
      have hforeign : p.card.identity ≠ other := fun hi =>
        hne ((Decidable.not_not.1 hidentity).symm.trans hi)
      cases h
      refine owned_insert hforeign fun m hm hid => ?_
      rwa [Table.eq_of_key_eq hm hmem hid]

/-- Publishing a card of one identity changes nothing for another. -/
theorem owned_publish (h : t.publish c = .ok t') (hne : c.identity ≠ other) :
    t'.owned other = t.owned other := by
  have hfresh := (publish_ok h).fresh
  unfold publish at h
  split at h
  · cases h
  · cases hr : t.replacePredecessor c with
    | error e => rw [hr] at h; cases h
    | ok u =>
      rw [hr] at h
      cases h
      have hnew : ∀ m ∈ u.rows, m.id = c.id → m.card.identity ≠ other := by
        intro m hm hid
        obtain ⟨p, hp, rfl⟩ := ((replacePredecessor_ok hr).2 m).1 hm
        rw [Listing.facing_id] at hid
        exact absurd hid (hfresh p hp)
      exact (owned_insert hne hnew).trans (owned_replacePredecessor hr hne)

/-- Revoking a card changes nothing for an identity that has no card with its id. -/
theorem owned_revoke (h : t.revoke id = .ok t') (hother : ∀ l ∈ t.owned other, l.id ≠ id) :
    t'.owned other = t.owned other := by
  have hforeign : ∀ m ∈ t.rows, m.id = id → m.card.identity ≠ other :=
    fun m hm hid howned => hother m (mem_owned.2 ⟨hm, howned⟩) hid
  unfold revoke at h
  cases hf : t.find? id with
  | none => rw [hf] at h; cases h
  | some l =>
    rw [hf] at h
    cases h
    obtain ⟨hl, rfl⟩ := Table.find?_eq_some_iff.1 hf
    exact owned_insert (hforeign l hl rfl) hforeign

/-- A card that is found for an identity has none of the ids of another one's cards. -/
theorem id_ne_of_current {chain : CardChain} (hc : chain ∈ t.current identity)
    (hne : other ≠ identity) : ∀ l ∈ t.owned other, l.id ≠ chain.head.id := by
  rw [current, Timestamp.inOrder, List.mem_mergeSort] at hc
  obtain ⟨m, hm, rfl⟩ := List.mem_map.1 hc
  obtain ⟨hm, hcurrent⟩ := List.mem_filter.1 hm
  have howned : m.card.identity = identity := by
    rw [Bool.and_eq_true, decide_eq_true_iff] at hcurrent
    exact hcurrent.2
  intro l hl hid
  obtain ⟨hl, hli⟩ := mem_owned.1 hl
  obtain rfl : l = m := Table.eq_of_key_eq hl hm hid
  exact hne (hli.symm.trans howned)

end Listings

namespace DirectoryLink

/-- A search over any link leaves the list and its reach, and is answered from the list. -/
theorem search_keeps (t : Listings) (available : Bool) (identity : String) :
    Keeps (fun l => l.listings = t ∧ l.directory.available = available) (search identity)
      fun chains => chains = t.current identity := by
  rintro ⟨⟨t, available, searches⟩, searchFaults, outdatedFaults⟩ ⟨rfl, rfl⟩
  unfold search
  dsimp only
  split
  · exact ⟨⟨rfl, rfl⟩, nofun⟩
  · cases available with
    | false => exact ⟨⟨rfl, rfl⟩, nofun⟩
    | true => exact ⟨⟨rfl, rfl⟩, fun _ h => (Except.ok.inj h).symm⟩

/-- So does a check of ids. -/
theorem outdated_keeps (t : Listings) (available : Bool) (ids : List String) :
    Keeps (fun l => l.listings = t ∧ l.directory.available = available) (outdated ids)
      fun _ => True := by
  rintro ⟨⟨t, available, searches⟩, searchFaults, outdatedFaults⟩ ⟨rfl, rfl⟩
  unfold outdated
  dsimp only
  split
  · exact ⟨⟨rfl, rfl⟩, nofun⟩
  · cases available with
    | false => exact ⟨⟨rfl, rfl⟩, nofun⟩
    | true => exact ⟨⟨rfl, rfl⟩, fun _ _ => trivial⟩

variable {S : CipherSuite} {ls : List Listing}

/-- Searching for one identity leaves the listings of another one, and finds none of its cards. -/
theorem search_spares (hne : other ≠ identity) :
    Keeps (fun l => l.listings.owned other = ls) (search identity) fun chains =>
      ∀ chain ∈ chains, ∀ l ∈ ls, l.id ≠ chain.head.id := by
  rintro l rfl
  obtain ⟨⟨hsame, -⟩, hanswer⟩ := search_keeps l.listings l.directory.available identity l ⟨rfl, rfl⟩
  refine ⟨congrArg (Listings.owned other) hsame, fun chains h chain hchain => ?_⟩
  rw [hanswer chains h] at hchain
  exact Listings.id_ne_of_current hchain hne

/-- Publishing a card that was made for one identity leaves the listings of another one. -/
theorem publish_spares {key : KeyPair} {previousId : Option String} {createdAt : Timestamp}
    {raw : RawCard} (hraw : RawCard.generate S key identity previousId createdAt = .ok raw)
    (hne : other ≠ identity) :
    Keeps (fun l => l.listings.owned other = ls) (publish S raw) fun _ => True := by
  rintro l rfl
  rcases publish_run S l raw with ⟨e, hrun⟩ | ⟨c, t, hc, ht, -, hrun⟩
  · rw [hrun]
    exact ⟨rfl, fun _ _ => trivial⟩
  · rw [hrun]
    have howned : c.identity ≠ other := by
      rw [(Card.madeFor_of_generate hraw hc).identity]
      exact hne.symm
    exact ⟨Listings.owned_publish ht howned, fun _ _ => trivial⟩

/-- Revoking leaves the listings of an identity that has no card with that id. -/
theorem revoke_spares (hother : ∀ l ∈ ls, l.id ≠ id) :
    Keeps (fun l => l.listings.owned other = ls) (revoke id) fun _ => True := by
  rintro l rfl
  refine ⟨?_, fun _ _ => trivial⟩
  cases ha : l.directory.available with
  | false =>
    rw [revoke, call, on_run, Directory.revoke, bind_error (Directory.reach_of_unavailable ha)]
  | true =>
    cases ht : l.listings.revoke id with
    | error e =>
      rw [revoke, call, on_run, Directory.revoke, bind_ok (Directory.reach_of_available ha),
        Directory.change_of_error ht]
    | ok t =>
      rw [revoke_run ha ht]
      exact Listings.owned_revoke ht hother

end DirectoryLink

end EndToEnd
